import CanDongle.Dialogue
import CanDongle.Dongle.Output
import CanDongle.Pipeline.Frames

/-!
# What the host reads

The replies and the lines of frames come to the host in one stream of bytes.  A word of it
ends with CR or BELL, and is the line of a frame when it starts with a letter of a frame
command.  As long as no call of `chnWriteTimeout` is cut short, the host so reads the
replies in the order of the commands, and the frames in the order in which they were
received, however the threads take turns.
-/

open Transition Blocks

namespace CanDongle

/-! ### Reading -/

/-- The words that the host has read. -/
def hostWords (bytes : List UInt8) : List (List UInt8) :=
  (Words.split (fun c => decide (IsDelimiter c)) bytes).1

/-- The word starts with a letter of a frame command. -/
def startsFrame (w : List UInt8) : Bool :=
  w.head?.any fun c => c ∈ ['t', 'T', 'r', 'R'].map Char.toUInt8

/-- The words that are replies. -/
def hostReplies (bytes : List UInt8) : List (List UInt8) :=
  (hostWords bytes).filter fun w => !startsFrame w

/-- The words that are lines of frames. -/
def hostFrames (bytes : List UInt8) : List (List UInt8) :=
  (hostWords bytes).filter startsFrame

/-- The version strings are read as replies: they have no delimiter, and do not start like a
frame. -/
structure Version.Readable (version : Version) : Prop where
  undelimited : version.Undelimited
  hardware : startsFrame version.hardwareVersionStr.toList = false
  software : startsFrame version.softwareVersionStr.toList = false

/-- A word that is read as one. -/
def IsHostWord (w : List UInt8) : Prop := Words.IsWord (fun c => decide (IsDelimiter c)) w

theorem isHostWord_iff (w : List UInt8) :
  IsHostWord w ↔ Delimited w
  := by
  simp [IsHostWord, Words.IsWord, Delimited]

theorem IsHostWord.ne_nil {w : List UInt8} (h : IsHostWord w) :
  w ≠ []
  := by
  obtain ⟨body, c, rfl, -⟩ := h
  simp

theorem startsFrame_concat {body : List UInt8} (h : startsFrame body = false) {c : UInt8}
    (hc : startsFrame [c] = false) :
  startsFrame (body ++ [c]) = false
  := by
  cases body with
  | nil => exact hc
  | cons b body => exact h

/-- A reply does not start like a frame. -/
theorem startsFrame_answer {version : Version} (h : version.Readable) (line : Line)
    (result : DriverCall → Bool) :
  startsFrame ((request version line).answer result) = false
  := by
  have hcr : startsFrame [cr] = false := by decide
  have hbell : startsFrame [bell] = false := by decide
  cases hrequest : request version line with
  | reply text =>
      rcases eq_of_request_eq_reply hrequest with rfl | rfl | rfl | rfl
      · exact hcr
      · exact hbell
      · exact startsFrame_concat h.hardware hcr
      · exact startsFrame_concat h.software hcr
  | ask call =>
      rw [Request.answer]
      split
      · exact hcr
      · exact hbell
  | tell call => exact hcr

theorem startsFrame_frameLine (f : CanFrame) (timestamp : Bool) :
  startsFrame (frameLine f timestamp) = true
  := by
  rw [frameLine, frameText, List.cons_append, List.cons_append, startsFrame, List.head?_cons]
  cases f.extended <;> cases f.remote <;> decide

theorem not_isDelimiter_of_isHexDigit {c : UInt8} (h : IsHexDigit c) :
  ¬ IsDelimiter c
  := by
  have hcr : cr.toNat = 13 := by decide
  have hbell : bell.toNat = 7 := by decide
  rw [isHexDigit_iff] at h
  rintro (rfl | rfl)
  · omega
  · omega

/-- The text of a frame has no delimiter in it. -/
theorem FrameText.not_isDelimiter (t : FrameText) :
  ∀ c ∈ t.toList, ¬ IsDelimiter c
  := by
  intro c hc
  simp only [FrameText.toList, List.mem_cons, List.mem_append] at hc
  rcases hc with rfl | hc | rfl | hc
  · cases t.extended <;> cases t.remote <;> decide
  · apply not_isDelimiter_of_isHexDigit (t.isHexDigit_id c hc)
  · apply not_isDelimiter_of_isHexDigit t.isHexDigit_dlc
  · apply not_isDelimiter_of_isHexDigit (t.isHexDigit_data c hc)

/-- The line of a frame is a word. -/
theorem isHostWord_frameLine {f : CanFrame} (h : f.length ≤ 8) :
  IsHostWord (frameLine f false)
  := by
  rw [isHostWord_iff]
  exact ⟨frameText f, cr, by simp [frameLine], .inl rfl, (f.toText h).not_isDelimiter⟩

namespace Dongle

/-- The bytes written to the host. -/
def bytes (s : Dongle) : List UInt8 := s.serial.output.map Prod.snd

variable {bits : BtrBits} {version : Version} {s s' : Dongle} {a : DongleAction}

/-! ### Replies -/

/-- A reply to some line. -/
def IsReply (version : Version) (reply : List UInt8) : Prop :=
  ∃ line result, reply = (request version line).answer result

theorem IsReply.isHostWord {reply : List UInt8} (h : IsReply version reply)
    (hversion : version.Undelimited) :
  IsHostWord reply
  := by
  obtain ⟨line, result, rfl⟩ := h
  rw [isHostWord_iff]
  apply delimited_answer hversion line result

theorem IsReply.startsFrame {reply : List UInt8} (h : IsReply version reply)
    (hversion : version.Readable) :
  startsFrame reply = false
  := by
  obtain ⟨line, result, rfl⟩ := h
  apply startsFrame_answer hversion line result

/-- The replies are those to lines. -/
structure Replied (version : Version) (s : Dongle) : Prop where
  neverWaits : s.pipeline.NeverWaits
  replies : ∀ reply ∈ s.replies, IsReply version reply

theorem forall_isReply_answered {t : Dongle} {success : Bool} {line : Line} {serial : Serial}
    (h : t.Answers version success line serial) (ht : ∀ reply ∈ t.replies, IsReply version reply) :
  ∀ reply ∈ (t.answered line serial).replies, IsReply version reply
  := by
  obtain ⟨line', hline', htext⟩ := exists_decoded version t.reader.lineBuffer success
  obtain rfl := Option.some.inj (h.decoded.symm.trans hline')
  rw [answered, List.forall_mem_append, List.forall_mem_singleton]
  exact ⟨ht, _, _, htext⟩

theorem Replied.step (h : Replied version s) (hstep : Step bits version s a s') :
  Replied version s'
  := by
  have hwaits := hstep.neverWaits h.neverWaits
  refine ⟨hwaits, ?_⟩
  cases hstep with
  | executed hthread hidle hfound ht hcall hanswers =>
      subst ht
      exact forall_isReply_answered hanswers h.replies
  | called hthread hsimple hcall ht hanswers =>
      subst ht
      exact forall_isReply_answered hanswers h.replies
  | returned hthread hcommand hp ht hanswers =>
      subst ht
      exact forall_isReply_answered hanswers h.replies
  | _ => exact h.replies

variable {start : Dongle} {acts : List DongleAction}

theorem replied_of_run (hstart : slcanStart bits = some start)
    (h : run (Dongle.step bits version) start acts = some s) :
  Replied version s
  := by
  obtain ⟨d, -, rfl⟩ := Option.map_eq_some_iff.mp hstart
  refine run_invariant ?_ ⟨Pipeline.neverWaits_init, by rintro reply ⟨⟩⟩ h
  intro s a s' hinv hstep
  apply hinv.step (step_cases hinv.neverWaits hstep)

/-! ### The stream -/

/-- The buffers that the host has read as words, with the threads that have written them: those of
the calls that have returned, and of one that has written everything. -/
structure Reads (s : Dongle) (tagged : List (Writer × List UInt8)) : Prop where
  words : hostWords s.bytes = tagged.map Prod.snd
  prefixes : ∀ w, (tagged.filter (·.1 = w)).map Prod.snd <+: s.passed w
  rests : ∀ w, (s.serial.point w).inHand = [] →
    (tagged.filter (·.1 = w)).map Prod.snd = s.passed w

/-- The channel has what the calls have written, one after the other. -/
theorem Accounted.bytes_eq (h : Accounted s) :
  s.bytes = (s.serial.returned ++ s.serial.current).flatMap WriteCall.part
  := by
  rw [bytes, h.serial.output]
  apply map_snd_blocks

/-- A buffer that was passed is one that was written, or the one in hand. -/
theorem Accounted.mem_passed (h : Accounted s) {x : Writer × List UInt8} (hx : x ∈ s.writes) :
  x.2 ∈ s.passed x.1
  := by
  rw [← h.passed]
  apply List.mem_append_left
  apply List.mem_map_of_mem
  rw [List.mem_filter]
  simpa using hx

/-- What the host reads, when every buffer that was passed is a word. -/
theorem exists_reads (h : Accounted s) (hall : s.AllWritten)
    (hwords : ∀ w, ∀ buf ∈ s.passed w, IsHostWord buf) :
  ∃ tagged, Reads s tagged
  := by
  have hwritten : ∀ w ∈ s.writes.map Prod.snd, IsHostWord w := by
    rw [List.forall_mem_map]
    intro x hx
    apply hwords _ _ (h.mem_passed hx)
  have hbytes : s.bytes = (s.writes.map Prod.snd).flatten
      ++ s.serial.current.flatMap WriteCall.part := by
    have hcomplete : s.serial.returned.flatMap WriteCall.part
        = (s.writes.map Prod.snd).flatten := by
      rw [h.buffers]
      apply flatMap_complete hall
    rw [h.bytes_eq, List.flatMap_append, hcomplete]
  have hprefix (w : Writer) : s.writtenBy w <+: s.passed w := by
    rw [← h.passed]
    apply List.prefix_append
  have hrest (w : Writer) (hw : (s.serial.point w).inHand = []) : s.writtenBy w = s.passed w := by
    rw [← h.passed, hw, List.append_nil]
  by_cases hwriting : ∃ w call n, s.serial.point w = .writing call n
  · obtain ⟨w, call, n, hpoint⟩ := hwriting
    rw [h.serial.current_eq (by rw [hpoint]; trivial), hpoint, WriterPoint.current,
      List.flatMap_singleton, WriteCall.part] at hbytes
    have hpassed := h.passed w
    rw [hpoint] at hpassed
    have hbuf : IsHostWord call.buf := by
      apply hwords w
      rw [← hpassed]
      simp [WriterPoint.inHand]
    have hsplit := Words.split_part hwritten hbuf n
    rw [← hbytes] at hsplit
    by_cases hn : call.buf.length ≤ n
    · rw [if_pos hn] at hsplit
      have hself : s.writtenBy w ++ [call.buf] = s.passed w := hpassed
      have htagged (w' : Writer) : ((s.writes ++ [(w, call.buf)]).filter (·.1 = w')).map Prod.snd
          = s.writtenBy w' ++ if w = w' then [call.buf] else [] := by
        by_cases hw : w = w' <;> simp [writtenBy, hw]
      refine ⟨s.writes ++ [(w, call.buf)], by rw [hostWords, hsplit]; simp, ?_, ?_⟩
      · intro w'
        rw [htagged]
        by_cases hw : w = w'
        · rw [if_pos hw, ← hw, hself]
        · rw [if_neg hw, List.append_nil]
          apply hprefix
      · intro w' hw'
        rw [htagged]
        by_cases hw : w = w'
        · rw [if_pos hw, ← hw, hself]
        · rw [if_neg hw, List.append_nil]
          apply hrest w' hw'
    · rw [if_neg hn, List.append_nil] at hsplit
      exact ⟨s.writes, hsplit, hprefix, hrest⟩
  · have hnone (w : Writer) : (s.serial.point w).current = [] := by
      cases hpoint : s.serial.point w with
      | writing call n => exact absurd ⟨w, call, n, hpoint⟩ hwriting
      | _ => rfl
    have hcurrent : s.serial.current = [] := congrArg₂ (· ++ ·) (hnone .command) (hnone .receiver)
    rw [hcurrent, List.flatMap_nil] at hbytes
    have hsplit := congrArg Prod.fst (Words.split_flatten hwritten [])
    rw [← hbytes] at hsplit
    refine ⟨s.writes, ?_, hprefix, hrest⟩
    rw [hostWords, hsplit]
    simp [Words.split]

/-! ### Every interleaving -/

/-- Every line of a frame that was written is the line of a received one. -/
theorem exists_written {p : Pipeline} {actions : List Action}
    (h : run Pipeline.step .init actions = some p) (hfits : p.DataFits) :
  ∃ frames, Pipeline.Selects p.received p.sent frames ∧
    p.written = frames.map (fun rxf => frameLine rxf.toFrame false) ∧
    ∀ rxf ∈ frames, rxf.toFrame.Valid
  := by
  obtain ⟨frames, hframes, hwritten⟩ :=
    Pipeline.exists_frames ((Pipeline.inv_of_run h).contentInv hfits).written
  use frames, hframes, hwritten
  intro rxf hrxf
  apply CANRxFrame.valid_toFrame (hfits rxf (hframes.mem hrxf))

section Passed

variable {frames : List CANRxFrame} {w : Writer} {buf : List UInt8}
  (hreplies : Replied version s)
  (hwritten : s.pipeline.written = frames.map fun rxf => frameLine rxf.toFrame false)

include hreplies hwritten

/-- A buffer that was passed is a word. -/
theorem isHostWord_of_passed (hversion : version.Undelimited)
    (hvalid : ∀ rxf ∈ frames, rxf.toFrame.Valid) (hbuf : buf ∈ s.passed w) :
  IsHostWord buf
  := by
  cases w with
  | command => exact (hreplies.replies buf (List.mem_of_mem_filter hbuf)).isHostWord hversion
  | receiver =>
      have hmem := List.mem_of_mem_filter hbuf
      rw [hwritten] at hmem
      obtain ⟨rxf, hrxf, rfl⟩ := List.mem_map.mp hmem
      apply isHostWord_frameLine (hvalid rxf hrxf).length_le

/-- A buffer tells which thread has passed it. -/
theorem startsFrame_of_passed (hversion : version.Readable) (hbuf : buf ∈ s.passed w) :
  startsFrame buf = decide (w = .receiver)
  := by
  cases w with
  | command => exact (hreplies.replies buf (List.mem_of_mem_filter hbuf)).startsFrame hversion
  | receiver =>
      have hmem := List.mem_of_mem_filter hbuf
      rw [hwritten] at hmem
      obtain ⟨rxf, -, rfl⟩ := List.mem_map.mp hmem
      apply startsFrame_frameLine

end Passed

/-- The words that a thread has written are among those it has passed. -/
theorem Reads.mem_passed {tagged : List (Writer × List UInt8)} (h : Reads s tagged)
    {x : Writer × List UInt8} (hx : x ∈ tagged) :
  x.2 ∈ s.passed x.1
  := by
  apply (h.prefixes x.1).subset
  apply List.mem_map_of_mem
  rw [List.mem_filter]
  simpa using hx

section Reads

variable {tagged : List (Writer × List UInt8)}
  (hword : ∀ w, ∀ buf ∈ s.passed w, IsHostWord buf ∧ startsFrame buf = decide (w = .receiver))

include hword

theorem Reads.hostFrames (h : Reads s tagged) :
  hostFrames s.bytes = (tagged.filter (·.1 = .receiver)).map Prod.snd
  := by
  rw [CanDongle.hostFrames, h.words]
  apply Words.filter_tagged
  intro x hx
  apply (hword _ _ (h.mem_passed hx)).2

theorem Reads.hostReplies (h : Reads s tagged) :
  hostReplies s.bytes = (tagged.filter (·.1 = .command)).map Prod.snd
  := by
  rw [CanDongle.hostReplies, h.words]
  apply Words.filter_tagged
  intro x hx
  rw [(hword _ _ (h.mem_passed hx)).2]
  cases x.1 <;> rfl

end Reads

/-- The buffers that the host reads, when no call of `chnWriteTimeout` has been cut short, are
replies and the lines of received frames. -/
theorem exists_reads_of_run (hstart : slcanStart bits = some start)
    (h : run (Dongle.step bits version) start acts = some s) (hversion : version.Readable)
    (hfits : s.pipeline.DataFits) (hall : s.AllWritten) :
  ∃ frames tagged, Pipeline.Selects s.pipeline.received s.pipeline.sent frames ∧ Reads s tagged ∧
    (∀ w, ∀ buf ∈ s.passed w, IsHostWord buf ∧ startsFrame buf = decide (w = .receiver)) ∧
    s.passed .command = s.replies ∧
    s.passed .receiver = frames.map fun rxf => frameLine rxf.toFrame false
  := by
  have hreplied := replied_of_run hstart h
  obtain ⟨frames, hframes, hwritten, hvalid⟩ := exists_written (pipeline_of_run hstart h) hfits
  have hword : ∀ w, ∀ buf ∈ s.passed w,
      IsHostWord buf ∧ startsFrame buf = decide (w = .receiver) :=
    fun w buf hbuf => ⟨isHostWord_of_passed hreplied hwritten hversion.undelimited hvalid hbuf,
      startsFrame_of_passed hreplied hwritten hversion hbuf⟩
  obtain ⟨tagged, hreads⟩ := exists_reads (accounted_of_run hstart h) hall
    fun w buf hbuf => (hword w buf hbuf).1
  refine ⟨frames, tagged, hframes, hreads, hword, ?_, ?_⟩
  · apply List.filter_eq_self.mpr
    intro reply hreply
    simpa using ((hreplied.replies reply hreply).isHostWord hversion.undelimited).ne_nil
  · rw [passed, hwritten, List.filter_eq_self, List.forall_mem_map]
    intro rxf hrxf
    simpa using (isHostWord_frameLine (hvalid rxf hrxf).length_le).ne_nil

/-- Whatever the interleaving, the host reads the replies in the order of the commands, and the
frames in the order in which they were received, when no call of `chnWriteTimeout` has been cut
short.  It has read all of them when the threads have nothing in hand. -/
theorem host_reads (hstart : slcanStart bits = some start)
    (h : run (Dongle.step bits version) start acts = some s) (hversion : version.Readable)
    (hfits : s.pipeline.DataFits) (hall : s.AllWritten) :
  ∃ frames, Pipeline.Selects s.pipeline.received s.pipeline.sent frames ∧
    s.pipeline.sent.Pairwise (· < ·) ∧
    hostReplies s.bytes <+: s.replies ∧
    hostFrames s.bytes <+: frames.map (fun rxf => frameLine rxf.toFrame false) ∧
    (s.serial.command.inHand = [] → hostReplies s.bytes = s.replies) ∧
    (s.serial.receiver.inHand = [] →
      hostFrames s.bytes = frames.map fun rxf => frameLine rxf.toFrame false)
  := by
  have hsorted := (Pipeline.inv_of_run (pipeline_of_run hstart h)).orderInv.delivers.sorted
  obtain ⟨frames, tagged, hframes, hreads, hword, hreplies, hlines⟩ :=
    exists_reads_of_run hstart h hversion hfits hall
  refine ⟨frames, hframes, (List.pairwise_append.mp hsorted).1, ?_⟩
  rw [hreads.hostReplies hword, hreads.hostFrames hword, ← hreplies, ← hlines]
  exact ⟨hreads.prefixes _, hreads.prefixes _, hreads.rests .command, hreads.rests .receiver⟩

theorem readable_mockVersion :
  mockVersion.Readable
  where
  undelimited := by constructor <;> decide +kernel
  hardware := by decide +kernel
  software := by decide +kernel

theorem host_reads_writeLine :
  ∃ start s, slcanStart bxCan = some start ∧
    run (Dongle.step bxCan mockVersion) start (openReceive ++ writeLine) = some s ∧
    ∃ frames, Pipeline.Selects s.pipeline.received s.pipeline.sent frames ∧
      s.pipeline.sent.Pairwise (· < ·) ∧
      hostReplies s.bytes <+: s.replies ∧
      hostFrames s.bytes <+: frames.map (fun rxf => frameLine rxf.toFrame false) ∧
      (s.serial.command.inHand = [] → hostReplies s.bytes = s.replies) ∧
      (s.serial.receiver.inHand = [] →
        hostFrames s.bytes = frames.map fun rxf => frameLine rxf.toFrame false)
  := by
  obtain ⟨start, s, hstart, hrun, hfits, hall⟩ : ∃ start s, slcanStart bxCan = some start ∧
      run (Dongle.step bxCan mockVersion) start (openReceive ++ writeLine) = some s ∧
      s.pipeline.DataFits ∧
      ∀ r ∈ s.serial.returned, r.2 = r.1.buf.length := exists_run_of_start (by decide +kernel)
  exact ⟨start, s, hstart, hrun, host_reads hstart hrun readable_mockVersion hfits hall⟩

end Dongle

end CanDongle
