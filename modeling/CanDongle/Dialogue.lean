import CanDongle.Thread

/-!
# One reply for each command

The command thread writes one reply for each terminator it receives.  A reply ends with its
only delimiter, CR or BELL, so the host can tell the replies apart.
-/

namespace CanDongle

/-- A byte that ends a reply. -/
def IsDelimiter (c : UInt8) : Prop := c = cr ∨ c = bell

instance (c : UInt8) : Decidable (IsDelimiter c) :=
  inferInstanceAs (Decidable (_ ∨ _))

/-- A reply whose last byte is a delimiter, and no other byte. -/
def Delimited (reply : List UInt8) : Prop :=
  ∃ body c, reply = body ++ [c] ∧ IsDelimiter c ∧ ∀ b ∈ body, ¬ IsDelimiter b

/-- The version strings contain no delimiter. -/
def Version.Undelimited (version : Version) : Prop :=
  (∀ c ∈ version.hardwareVersionStr.toList, ¬ IsDelimiter c) ∧
    ∀ c ∈ version.softwareVersionStr.toList, ¬ IsDelimiter c

theorem delimited_singleton {c : UInt8} (h : IsDelimiter c) :
  Delimited [c]
  := ⟨[], c, rfl, h, by simp⟩

theorem isDelimiter_answer (success : Bool) :
  IsDelimiter (if success then cr else bell)
  := by
  cases success
  · apply Or.inr rfl
  · apply Or.inl rfl

theorem delimited_version {body : List UInt8} (h : ∀ c ∈ body, ¬ IsDelimiter c) :
  Delimited (body ++ [cr])
  := ⟨body, cr, rfl, Or.inl rfl, h⟩

/-- A request that only replies, replies with a delimiter or with a version string. -/
theorem eq_of_request_eq_reply {version : Version} {line : Line} {text : List UInt8}
    (h : request version line = .reply text) :
  text = [cr] ∨ text = [bell] ∨ text = version.hardwareVersionStr.toList ++ [cr] ∨
    text = version.softwareVersionStr.toList ++ [cr]
  := by
  unfold request sendRequest at h
  split at h <;> (try split at h) <;> cases h <;> simp

/-- The reply of a command is delimited. -/
theorem delimited_answer {version : Version} (hversion : version.Undelimited) (line : Line)
    (result : DriverCall → Bool) :
  Delimited ((request version line).answer result)
  := by
  cases h : request version line with
  | reply text =>
      rcases eq_of_request_eq_reply h with rfl | rfl | rfl | rfl
      · apply delimited_singleton (Or.inl rfl)
      · apply delimited_singleton (Or.inr rfl)
      · apply delimited_version hversion.1
      · apply delimited_version hversion.2
  | ask call => apply delimited_singleton (isDelimiter_answer _)
  | tell call => apply delimited_singleton (Or.inl rfl)

/-- The number of terminators among the results. -/
def terminators (results : List ℤ) : ℕ := results.countP fun c => IsTerminator c

theorem terminators_cons_pos {c : ℤ} (hc : IsTerminator c) (rest : List ℤ) :
  terminators (c :: rest) = terminators rest + 1
  := by
  simp [terminators, hc]

theorem terminators_cons_neg {c : ℤ} (hc : ¬ IsTerminator c) (rest : List ℤ) :
  terminators (c :: rest) = terminators rest
  := by
  simp [terminators, hc]

section Replies

variable (answers : List DriverCall → DriverCall → Bool) {version : Version}

/-- After each number of results, as many of the replies have been written as terminators were
received. -/
def WritesReplies (version : Version) (reader : LineReader) (results : List ℤ)
    (calls : List DriverCall) (replies : List (List UInt8)) : Prop :=
  ∀ n, ∃ waiting calls',
    slcanThreadMain (recorder answers) version reader (results.take n) calls
      = some ((replies.take (terminators (results.take n)), waiting), calls')

theorem slcanThreadMain_take_zero (reader : LineReader) (results : List ℤ)
    (calls : List DriverCall) (replies : List (List UInt8)) :
  ∃ waiting calls',
    slcanThreadMain (recorder answers) version reader (results.take 0) calls
      = some ((replies.take (terminators (results.take 0)), waiting), calls')
  := by
  use (reader.lineBuffer, reader.pos), calls
  rw [List.take_zero, slcanThreadMain_waiting _ _ (slcanGetlineLoop_nil _ reader.pos_lt)]
  rfl

/-- A result that ends no line writes nothing. -/
theorem WritesReplies.skip {reader reader' : LineReader} {c : ℤ} (hc : ¬ IsTerminator c)
    {rest : List ℤ} {calls : List DriverCall} {replies : List (List UInt8)}
    (hstep : ∀ rest, slcanThreadMain (recorder answers) version reader (c :: rest)
      = slcanThreadMain (recorder answers) version reader' rest)
    (h : WritesReplies answers version reader' rest calls replies) :
  WritesReplies answers version reader (c :: rest) calls replies
  := by
  intro n
  cases n with
  | zero => apply slcanThreadMain_take_zero
  | succ n =>
      rw [List.take_succ_cons, hstep, terminators_cons_neg hc]
      apply h n

/-- A terminator writes the reply of the line it ends. -/
theorem WritesReplies.reply {reader : LineReader} {c : ℤ} (hc : IsTerminator c) {line : Line}
    {rest : List ℤ} {calls calls' : List DriverCall} {replies : List (List UInt8)}
    (hline : slcanDecodeLine (recorder answers) version
      (reader.lineBuffer.set reader.pos 0 reader.pos_lt) calls = some (line, calls'))
    (h : WritesReplies answers version ⟨line, 0, lineBuffer_pos⟩ rest calls' replies) :
  WritesReplies answers version reader (c :: rest) calls (line.text :: replies)
  := by
  intro n
  cases n with
  | zero => apply slcanThreadMain_take_zero
  | succ n =>
      obtain ⟨waiting, calls'', hrest⟩ := h n
      use waiting, calls''
      rw [List.take_succ_cons, slcanThreadMain_terminator _ _ reader hc, terminators_cons_pos hc,
        List.take_succ_cons]
      apply slcanThreadMain_reply _ _ hline hrest

/-- From any state of the line buffer, one delimited reply is written for each terminator. -/
theorem exists_replies (hversion : version.Undelimited) (reader : LineReader) (results : List ℤ)
    (calls : List DriverCall) :
  ∃ replies : List (List UInt8), replies.length = terminators results ∧
    (∀ reply ∈ replies, Delimited reply) ∧
    WritesReplies answers version reader results calls replies
  := by
  induction results generalizing reader calls with
  | nil =>
      refine ⟨[], rfl, by simp, fun n => ?_⟩
      rw [List.take_nil, ← List.take_zero (l := [])]
      apply slcanThreadMain_take_zero
  | cons c rest ih =>
      by_cases hc : IsTerminator c
      · obtain ⟨line, hline, htext⟩ := slcanDecodeLine_recorder answers version
          (reader.lineBuffer.set reader.pos 0 reader.pos_lt) calls
        obtain ⟨replies, hlen, hdelimited, hwrites⟩ := ih ⟨line, 0, lineBuffer_pos⟩ _
        refine ⟨line.text :: replies, ?_, ?_, hwrites.reply answers hc hline⟩
        · rw [List.length_cons, hlen, terminators_cons_pos hc]
        · rw [List.forall_mem_cons, htext]
          exact ⟨delimited_answer hversion _ _, hdelimited⟩
      rw [terminators_cons_neg hc]
      have hskip {reader' : LineReader} (hstep : ∀ rest,
          slcanThreadMain (recorder answers) version reader (c :: rest)
            = slcanThreadMain (recorder answers) version reader' rest) :
          ∃ replies : List (List UInt8), replies.length = terminators rest ∧
            (∀ reply ∈ replies, Delimited reply) ∧
            WritesReplies answers version reader (c :: rest) calls replies := by
        obtain ⟨replies, hlen, hdelimited, hwrites⟩ := ih reader' calls
        exact ⟨replies, hlen, hdelimited, hwrites.skip answers hc hstep⟩
      by_cases htimeout : c = stmTimeout
      · subst htimeout
        apply hskip (slcanThreadMain_timeout _ _ reader)
      by_cases hnext : reader.pos + 1 < 500
      · apply hskip (slcanThreadMain_byte _ _ reader htimeout hc hnext)
      · have hpos := reader.pos_lt
        apply hskip (slcanThreadMain_full _ _ reader htimeout hc (by omega))

end Replies

/-- Whatever is received and whatever the driver answers, the command thread writes one reply
for each terminator, as soon as it is received; each reply is delimited. -/
theorem slcanThreadMain_dialogue (answers : List DriverCall → DriverCall → Bool) (version : Version)
    (hversion : version.Undelimited) (results : List ℤ) :
  ∃ replies : List (List UInt8), replies.length = terminators results ∧
    (∀ reply ∈ replies, Delimited reply) ∧
    ∀ n, ∃ waiting calls,
      slcanThreadMain (recorder answers) version .init (results.take n) []
        = some ((replies.take (terminators (results.take n)), waiting), calls)
  := exists_replies answers hversion .init results []

theorem slcanThreadMain_dialogue_mock :
  ∃ replies : List (List UInt8), replies.length = terminators [86, -1, 13, 10] ∧
    (∀ reply ∈ replies, Delimited reply) ∧
    ∀ n, ∃ waiting calls,
      slcanThreadMain (recorder fun _ _ => true) mockVersion .init ([86, -1, 13, 10].take n) []
        = some ((replies.take (terminators ([86, -1, 13, 10].take n)), waiting), calls)
  := by
  apply slcanThreadMain_dialogue
  constructor <;> decide +kernel

end CanDongle
