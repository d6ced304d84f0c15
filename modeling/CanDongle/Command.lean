import CanDongle.Frame

/-!
# Commands

The command interpreter of `slcan.c`.  A command is executed in the line buffer it was
received in, and its reply is written there over it.  The functions of the CAN driver and
of the bus power that a command invokes are a parameter, a `Driver`.

Every command makes at most one call.  `request` says which, and `slcanDecodeLine` is
shown to perform the request of its line.
-/

open Buffer

namespace CanDongle

/-- The 500 bytes of `line_buffer`. -/
abbrev Line := Vector UInt8 500

/-- The character a line starts with, the letter of its command. -/
def Line.letter (buf : Line) : UInt8 := buf[0]

/-- The character after the letter. -/
def Line.digit (buf : Line) : UInt8 := buf[1]

/-- The string in a line buffer, up to its NUL. -/
def Line.text (line : Line) : List UInt8 :=
  line.toList.takeWhile (· ≠ 0)

/-- The buffer before its first use, which is static and thus zero. -/
def zeroLine : Line := Vector.replicate 500 0

/-- The buffer that holds `w` and zeros after it. -/
def lineOf (w : List UInt8) : Line := (storeAll zeroLine 0 w).getD zeroLine

/-- The reply to a failed command, BELL. -/
def bell : UInt8 := '\x07'.toUInt8

/-- The modes of `can_open`. -/
inductive CanMode where
  | normal
  | loopback
  | silent
  deriving DecidableEq, Repr

/-- A call of a command to the CAN driver or to the bus power.  The data of `canSend` is
the part of the array that was written. -/
inductive DriverCall where
  | canSend (id : UInt32) (extended remote : Bool) (data : List UInt8) (length : ℕ)
  | canSetBitrate (bitrate : UInt32)
  | canOpen (mode : CanMode)
  | canClose
  | busPower (enable : Bool)
  deriving DecidableEq, Repr

/-- The functions a command calls, over a state of type `σ`.  A call that does not return
is `none`; the result of `canClose`, which returns nothing, is ignored. -/
abbrev Driver (σ : Type) := DriverCall → StateT σ Option Bool

/-- A version string of the generated `version.c`: it fits in the line buffer with its CR
and NUL. -/
structure VersionStr where
  toList : List UInt8
  ne_nul : ∀ c ∈ toList, c ≠ 0
  length_le : toList.length ≤ 498

/-- The strings of `version.h`. -/
structure Version where
  hardwareVersionStr : VersionStr
  softwareVersionStr : VersionStr

/-- The version strings of a build. -/
def mockVersion : Version where
  hardwareVersionStr := ⟨['h', 'w'].map Char.toUInt8, by decide +kernel, by decide⟩
  softwareVersionStr := ⟨['s', 'w'].map Char.toUInt8, by decide +kernel, by decide⟩

/-! ### The interpreter -/

/-- Write an ACK response at index `buf`. -/
def slcanAck (line : Line) (buf : ℕ) : Option Line := do
  let line ← store line buf cr
  store line (buf + 1) 0

/-- Write a NACK response at index `buf`. -/
def slcanNack (line : Line) (buf : ℕ) : Option Line := do
  let line ← store line buf bell
  store line (buf + 1) 0

/-- Copy a string and its NUL to index `dst`, and return the index of the NUL. -/
def stpcpy (line : Line) (dst : ℕ) (src : List UInt8) : Option (Line × ℕ) := do
  let line ← storeAll line dst (src ++ [0])
  some (line, dst + src.length)

/-- Acknowledge a command that succeeded, and refuse one that did not. -/
def answer (line : Line) (success : Bool) : Option Line :=
  if success then slcanAck line 0 else slcanNack line 0

/-- What `slcan_send_frame` has read once it is past the identifier. -/
structure FrameHeader where
  remote : Bool
  extended : Bool
  id : UInt32
  next : ℕ

/-- The part of `slcan_send_frame` up to the identifier. -/
def readHeader (line : Line) : Option (Option FrameHeader) :=
  match line.letter.toChar with
  | 'r' => do
      let id ← hexToU32 line 1 (idLen false)
      some (some ⟨true, false, id, 1 + idLen false⟩)
  | 't' => do
      let id ← hexToU32 line 1 (idLen false)
      some (some ⟨false, false, id, 1 + idLen false⟩)
  | 'R' => do
      let id ← hexToU32 line 1 (idLen true)
      some (some ⟨true, true, id, 1 + idLen true⟩)
  | 'T' => do
      let id ← hexToU32 line 1 (idLen true)
      some (some ⟨false, true, id, 1 + idLen true⟩)
  | _ => some none

/-- The part of `slcan_send_frame` that reads the data of a frame that is not remote, to an
array of eight bytes. -/
def readData (line : Line) (remote : Bool) (str : ℕ) (len : UInt8) : Option (List UInt8) :=
  if remote then some [] else hexToU8Array 8 line str [] len.toNat

section Interpreter

variable {σ : Type} (drv : Driver σ) (version : Version)

/-- `slcan_send_frame`. -/
def slcanSendFrame (line : Line) : StateT σ Option Line := do
  match ← readHeader line with
  | none => slcanNack line 0
  | some header =>
      let len := hexVal (← line.toList[header.next]?)
      if len > 8 then
        slcanNack line 0
      else
        let data ← readData line header.remote (header.next + 1) len
        let sent ← drv (.canSend header.id header.extended header.remote data len.toNat)
        answer line sent

/-- The table of `set_bitrate`: its last element is not given, and thus zero. -/
def brTbl : Vector UInt32 10 :=
  #v[10000, 20000, 50000, 100000, 125000, 250000, 500000, 800000, 1000000, 0]

/-- `set_bitrate`. -/
def setBitrate (line : Line) : StateT σ Option Line := do
  let i := line.digit
  if i < '0'.toUInt8 ∨ i > '8'.toUInt8 then
    slcanNack line 0
  else
    let set ← drv (.canSetBitrate (← brTbl[(i - '0'.toUInt8).toNat]?))
    answer line set

/-- `slcan_open`. -/
def slcanOpen (line : Line) (mode : CanMode) : StateT σ Option Line := do
  let opened ← drv (.canOpen mode)
  answer line opened

/-- `slcan_close`. -/
def slcanClose (line : Line) : StateT σ Option Line := do
  let _ ← drv .canClose
  slcanAck line 0

/-- `slcan_decode_line`. -/
def slcanDecodeLine (line : Line) : StateT σ Option Line :=
  match line.letter.toChar with
  | 'T' | 't' | 'R' | 'r' => slcanSendFrame drv line
  | 'S' => setBitrate drv line
  | 'O' => slcanOpen drv line .normal
  | 'l' => slcanOpen drv line .loopback
  | 'L' => slcanOpen drv line .silent
  | 'C' => slcanClose drv line
  | 'V' => do
      let (line, p) ← stpcpy line 0 version.hardwareVersionStr.toList
      slcanAck line p
  | 'v' => do
      let (line, p) ← stpcpy line 0 version.softwareVersionStr.toList
      slcanAck line p
  | 'F' => do
      let line ← store line 1 '0'.toUInt8
      let line ← store line 2 '0'.toUInt8
      slcanAck line 0
  | '\x00' => slcanAck line 0
  | 'P' => do
      let _ ← drv (.busPower true)
      slcanAck line 0
  | 'p' => do
      let _ ← drv (.busPower false)
      slcanAck line 0
  | _ => slcanNack line 0

end Interpreter

/-! ### Requests -/

/-- What a command asks for: a reply and no call, a call whose result decides the reply,
or a call that is acknowledged whatever its result. -/
inductive Request where
  | reply (text : List UInt8)
  | ask (call : DriverCall)
  | tell (call : DriverCall)
  deriving DecidableEq, Repr

/-- Perform a request, and return its reply. -/
def Request.perform {σ : Type} (drv : Driver σ) : Request → StateT σ Option (List UInt8)
  | .reply text => pure text
  | .ask call => do
      let success ← drv call
      pure [if success then cr else bell]
  | .tell call => do
      let _ ← drv call
      pure [cr]

/-- The byte of a line at the place of the length of a frame. -/
def Line.dlc (buf : Line) (extended : Bool) : UInt8 :=
  if extended then buf[9] else buf[4]

theorem getElem?_letter (line : Line) :
  line.toList[0]? = some line.letter
  := by
  simp [Line.letter]

theorem getElem?_digit (line : Line) :
  line.toList[1]? = some line.digit
  := by
  simp [Line.digit]

theorem getElem?_dlc (line : Line) (extended : Bool) :
  line.toList[1 + idLen extended]? = some (line.dlc extended)
  := by
  cases extended <;> simp [idLen, Line.dlc]

/-- The call a frame command makes when its length is accepted. -/
def sendCall (line : Line) (remote extended : Bool) : DriverCall :=
  .canSend (hexU32 (slice line 1 (idLen extended))) extended remote
    (if remote then []
      else hexBytes (slice line (2 + idLen extended) (2 * (hexVal (line.dlc extended)).toNat)))
    (hexVal (line.dlc extended)).toNat

/-- The request of a frame command. -/
def sendRequest (line : Line) (remote extended : Bool) : Request :=
  if hexVal (line.dlc extended) > 8 then .reply [bell] else .ask (sendCall line remote extended)

/-- The request of a line. -/
def request (version : Version) (line : Line) : Request :=
  match line.letter.toChar with
  | 't' => sendRequest line false false
  | 'r' => sendRequest line true false
  | 'T' => sendRequest line false true
  | 'R' => sendRequest line true true
  | 'S' =>
      if line.digit < '0'.toUInt8 ∨ line.digit > '8'.toUInt8 then .reply [bell]
      else .ask (.canSetBitrate (brTbl[(line.digit - '0'.toUInt8).toNat]?.getD 0))
  | 'O' => .ask (.canOpen .normal)
  | 'l' => .ask (.canOpen .loopback)
  | 'L' => .ask (.canOpen .silent)
  | 'C' => .tell .canClose
  | 'V' => .reply (version.hardwareVersionStr.toList ++ [cr])
  | 'v' => .reply (version.softwareVersionStr.toList ++ [cr])
  | 'F' => .reply [cr]
  | '\x00' => .reply [cr]
  | 'P' => .tell (.busPower true)
  | 'p' => .tell (.busPower false)
  | _ => .reply [bell]

/-! ### The replies in the line buffer -/

/-- A buffer that holds `w` and then a NUL holds the string `w`. -/
theorem text_eq {line : Line} {w rest : List UInt8} (h : line.toList = w ++ 0 :: rest)
    (hw : ∀ c ∈ w, c ≠ 0) :
  line.text = w
  := by
  rw [Line.text, h, List.takeWhile_append_of_pos (by simpa using hw)]
  simp

/-- Writing a string and its NUL from index `i` on leaves what was before and after them. -/
theorem storeAll_string (line : Line) {w : List UInt8} (i : ℕ) (h : i + w.length < 500) :
  ∃ line', storeAll line i (w ++ [0]) = some line' ∧
    line'.toList = line.toList.take i ++ w ++ 0 :: line.toList.drop (i + w.length + 1)
  := by
  obtain ⟨line', hline', hlist⟩ := storeAll_eq_some line i (w ++ [0]) (by simp; omega)
  use line', hline'
  simp [hlist, Nat.add_assoc]

/-- Writing a character and a NUL at index `i` leaves what was before and after them. -/
theorem store_end (line : Line) {i : ℕ} (h : i < 499) (c : UInt8) :
  ∃ line', (store line i c >>= fun line => store line (i + 1) 0) = some line' ∧
    line'.toList = line.toList.take i ++ c :: 0 :: line.toList.drop (i + 2)
  := by
  obtain ⟨line', hline', hlist⟩ := storeAll_string line i (w := [c]) (by simp; omega)
  use line'
  constructor
  · rw [← hline']
    simp [storeAll]
  · simpa using hlist

theorem text_slcanAck (line : Line) :
  ∃ line', slcanAck line 0 = some line' ∧ line'.text = [cr]
  := by
  obtain ⟨line', hline', hlist⟩ := store_end line (by decide : 0 < 499) cr
  use line', hline'
  apply text_eq (by simpa using hlist)
  decide +kernel

theorem text_slcanNack (line : Line) :
  ∃ line', slcanNack line 0 = some line' ∧ line'.text = [bell]
  := by
  obtain ⟨line', hline', hlist⟩ := store_end line (by decide : 0 < 499) bell
  use line', hline'
  apply text_eq (by simpa using hlist)
  decide +kernel

theorem text_answer (line : Line) (success : Bool) :
  ∃ line', answer line success = some line' ∧ line'.text = [if success then cr else bell]
  := by
  cases success with
  | true => apply text_slcanAck
  | false => apply text_slcanNack

/-- The reply to a version command is the string and CR. -/
theorem text_version (line : Line) (s : VersionStr) :
  ∃ line', (stpcpy line 0 s.toList >>= fun (line, p) => slcanAck line p) = some line' ∧
    line'.text = s.toList ++ [cr]
  := by
  have hlen := s.length_le
  obtain ⟨line₁, hline₁, hlist₁⟩ := storeAll_string line (w := s.toList) 0 (by omega)
  obtain ⟨line₂, hline₂, hlist₂⟩ := store_end line₁ (i := s.toList.length) (by omega) cr
  use line₂
  constructor
  · rw [stpcpy, hline₁]
    simpa [slcanAck] using hline₂
  · have hlist : line₂.toList
        = (s.toList ++ [cr]) ++ 0 :: line₁.toList.drop (s.toList.length + 2) := by
      rw [hlist₂, hlist₁]
      simp
    apply text_eq hlist
    simp only [List.mem_append, List.mem_singleton]
    rintro c (hc | rfl)
    · apply s.ne_nul c hc
    · decide

/-! ### A command performs its request -/

section Perform

variable {σ : Type} (drv : Driver σ) (version : Version)

/-- What is left in the line buffer after a command. -/
def textOf (m : StateT σ Option Line) : StateT σ Option (List UInt8) :=
  Line.text <$> m

theorem textOf_lift {m : Option Line} {t : List UInt8}
    (h : ∃ line', m = some line' ∧ line'.text = t) :
  textOf (liftM m : StateT σ Option Line) = pure t
  := by
  obtain ⟨line', rfl, rfl⟩ := h
  rfl

theorem liftM_some_bind {α β : Type} (a : α) (k : α → StateT σ Option β) :
  ((liftM (some a) : StateT σ Option α) >>= k) = k a
  := rfl

/-- A computation that returns is followed by its continuation, in the state it returns. -/
theorem bind_of_eq_some {α β : Type} {m : StateT σ Option α} {k : α → StateT σ Option β}
    {a : α} {s s' : σ} (h : m s = some (a, s')) :
  (m >>= k) s = k a s'
  := by
  simp [bind, StateT.bind, h]

theorem exists_of_bind_eq_some {α β : Type} {m : StateT σ Option α} {k : α → StateT σ Option β}
    {b : β} {s s'' : σ} (h : (m >>= k) s = some (b, s'')) :
  ∃ a s', m s = some (a, s') ∧ k a s' = some (b, s'')
  := by
  obtain ⟨⟨a, s'⟩, hm, hk⟩ := Option.bind_eq_some_iff.mp h
  exact ⟨a, s', hm, hk⟩

/-- A call whose result is answered performs a request of the result. -/
theorem textOf_ask (line : Line) (call : DriverCall) :
  textOf (drv call >>= fun success => liftM (answer line success))
    = (Request.ask call).perform drv
  := by
  rw [textOf, map_bind]
  congr 1
  funext success
  apply textOf_lift (text_answer line success)

/-- A call that is acknowledged whatever its result performs a request that ignores it. -/
theorem textOf_tell (line : Line) (call : DriverCall) :
  textOf (drv call >>= fun _ => liftM (slcanAck line 0)) = (Request.tell call).perform drv
  := by
  rw [textOf, map_bind]
  congr 1
  funext success
  apply textOf_lift (text_slcanAck line)

theorem textOf_slcanSendFrame (line : Line) (remote extended : Bool)
    (h : readHeader line = some (some ⟨remote, extended,
      hexU32 (slice line 1 (idLen extended)), 1 + idLen extended⟩)) :
  textOf (slcanSendFrame drv line) = (sendRequest line remote extended).perform drv
  := by
  have hdata (hlen : ¬ hexVal (line.dlc extended) > 8) :
      readData line remote (1 + idLen extended + 1) (hexVal (line.dlc extended))
        = some (if remote then [] else hexBytes (slice line (2 + idLen extended)
            (2 * (hexVal (line.dlc extended)).toNat))) := by
    have hlen : (hexVal (line.dlc extended)).toNat ≤ 8 :=
      UInt8.le_iff_toNat_le.mp (UInt8.not_lt.mp hlen)
    cases remote with
    | true => rfl
    | false =>
        have hid : idLen extended ≤ 8 := by cases extended <;> decide
        simp only [readData, Bool.false_eq_true, if_false]
        rw [hexToU8Array_eq_some _ _ _ _ (by omega) (by simpa using hlen)]
        simp [Nat.add_comm, Nat.add_left_comm]
  unfold slcanSendFrame sendRequest
  simp only [h, liftM_some_bind, getElem?_dlc]
  by_cases hlen : hexVal (line.dlc extended) > 8
  · simp only [hlen, if_true]
    apply textOf_lift (text_slcanNack line)
  · simp only [hlen, if_false, hdata hlen, liftM_some_bind]
    apply textOf_ask

theorem textOf_setBitrate (line : Line) :
  textOf (setBitrate drv line)
    = Request.perform drv (if line.digit < '0'.toUInt8 ∨ line.digit > '8'.toUInt8 then .reply [bell]
        else .ask (.canSetBitrate (brTbl[(line.digit - '0'.toUInt8).toNat]?.getD 0)))
  := by
  unfold setBitrate
  by_cases hdigit : line.digit < '0'.toUInt8 ∨ line.digit > '8'.toUInt8
  · simp only [hdigit, if_true]
    apply textOf_lift (text_slcanNack line)
  · have hindex : (line.digit - '0'.toUInt8).toNat < 10 := by
      revert hdigit
      generalize line.digit = c
      revert c
      apply forall_byte
      decide +kernel
    have hget : brTbl[(line.digit - '0'.toUInt8).toNat]?
        = some brTbl[(line.digit - '0'.toUInt8).toNat] :=
      Vector.getElem?_eq_getElem hindex
    simp only [hdigit, if_false, hget, liftM_some_bind, Option.getD_some]
    apply textOf_ask

theorem textOf_version (line : Line) (s : VersionStr) :
  textOf (do
      let (line, p) ← (stpcpy line 0 s.toList : StateT σ Option _)
      slcanAck line p)
    = Request.perform drv (.reply (s.toList ++ [cr]))
  := by
  have h := text_version line s
  cases hcopy : stpcpy line 0 s.toList with
  | none =>
      obtain ⟨line', hline', -⟩ := h
      rw [hcopy] at hline'
      cases hline'
  | some copied =>
      rw [hcopy] at h
      apply textOf_lift h

/-- The status reply overwrites its own digits. -/
theorem textOf_status (line : Line) :
  textOf (do
      let line ← (store line 1 '0'.toUInt8 : StateT σ Option _)
      let line ← store line 2 '0'.toUInt8
      slcanAck line 0)
    = Request.perform drv (.reply [cr])
  := by
  rw [store_eq_some (by decide), liftM_some_bind, store_eq_some (by decide), liftM_some_bind]
  apply textOf_lift (text_slcanAck _)

theorem readHeader_eq_some (line : Line) (remote extended : Bool)
    (h : line.letter.toChar = frameChar extended remote) :
  readHeader line = some (some ⟨remote, extended,
      hexU32 (slice line 1 (idLen extended)), 1 + idLen extended⟩)
  := by
  have hid : 1 + idLen extended ≤ 500 := by cases extended <;> decide
  have hread := hexToU32_eq_some line 1 hid
  unfold readHeader
  rw [h]
  cases extended <;> cases remote <;> simp [frameChar, hread]

/-- A command performs the request of its line: it makes the call of the request, and
leaves its reply in the line buffer. -/
theorem textOf_slcanDecodeLine (line : Line) :
  textOf (slcanDecodeLine drv version line) = (request version line).perform drv
  := by
  have hframe (remote extended : Bool) (h : line.letter.toChar = frameChar extended remote) :=
    textOf_slcanSendFrame drv line remote extended (readHeader_eq_some line remote extended h)
  unfold slcanDecodeLine request
  split
  case h_1 h => rw [h]; apply hframe false true h
  case h_2 h => rw [h]; apply hframe false false h
  case h_3 h => rw [h]; apply hframe true true h
  case h_4 h => rw [h]; apply hframe true false h
  case h_5 h => rw [h]; apply textOf_setBitrate
  case h_6 h => rw [h]; apply textOf_ask
  case h_7 h => rw [h]; apply textOf_ask
  case h_8 h => rw [h]; apply textOf_ask
  case h_9 h => rw [h]; apply textOf_tell
  case h_10 h => rw [h]; apply textOf_version
  case h_11 h => rw [h]; apply textOf_version
  case h_12 h => rw [h]; apply textOf_status
  case h_13 h => rw [h]; apply textOf_lift (text_slcanAck line)
  case h_14 h => rw [h]; apply textOf_tell
  case h_15 h => rw [h]; apply textOf_tell
  case h_16 =>
    simp only [*]
    apply textOf_lift (text_slcanNack line)

end Perform

/-! ### Recorded calls -/

/-- The driver that records the calls made to it, and returns what `results` says for a
call made after the calls recorded before. -/
def recorder (results : List DriverCall → DriverCall → Bool) : Driver (List DriverCall) :=
  fun call calls => some (results calls call, calls ++ [call])

/-- The calls of a request. -/
def Request.calls : Request → List DriverCall
  | .reply _ => []
  | .ask call => [call]
  | .tell call => [call]

/-- The reply of a request, when the call it makes returns `result`. -/
def Request.answer (result : DriverCall → Bool) : Request → List UInt8
  | .reply text => text
  | .ask call => [if result call then cr else bell]
  | .tell _ => [cr]

/-- A request with recorded calls makes its calls, and returns its reply. -/
theorem perform_recorder (results : List DriverCall → DriverCall → Bool) (r : Request)
    (calls : List DriverCall) :
  r.perform (recorder results) calls = some (r.answer (results calls), calls ++ r.calls)
  := by
  cases r with
  | reply text => rw [Request.calls, List.append_nil]; rfl
  | ask call => rfl
  | tell call => rfl

theorem textOf_apply {σ : Type} (m : StateT σ Option Line) (s : σ) :
  textOf m s = (m s).map fun run => (run.1.text, run.2)
  := by
  cases h : m s with
  | none => simp [textOf, Functor.map, StateT.map, h]
  | some run => simp [textOf, Functor.map, StateT.map, h]

/-- What a command does with any driver, in terms of the request of its line. -/
theorem slcanDecodeLine_eq_some {σ : Type} {drv : Driver σ} {version : Version} {line : Line}
    {s s' : σ} {reply : List UInt8}
    (h : (request version line).perform drv s = some (reply, s')) :
  ∃ line', slcanDecodeLine drv version line s = some (line', s') ∧ line'.text = reply
  := by
  rw [← textOf_slcanDecodeLine, textOf_apply] at h
  obtain ⟨⟨line', s''⟩, hrun, heq⟩ := Option.map_eq_some_iff.mp h
  obtain ⟨rfl, rfl⟩ := Prod.mk.inj heq
  exact ⟨line', hrun, rfl⟩

/-- With recorded calls, a command makes the calls of its request, and leaves its reply. -/
theorem slcanDecodeLine_recorder (results : List DriverCall → DriverCall → Bool)
    (version : Version) (line : Line) (calls : List DriverCall) :
  ∃ line', slcanDecodeLine (recorder results) version line calls
      = some (line', calls ++ (request version line).calls) ∧
    line'.text = (request version line).answer (results calls)
  := slcanDecodeLine_eq_some (perform_recorder results _ calls)

end CanDongle
