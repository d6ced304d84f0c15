import CanDongle.Dongle.Host
import CanDongle.Dongle.Refinement
import CanDongle.Transmission

/-!
# From the host to the bus, and on to another dongle

What the host writes as the texts of frames is handed to the hardware, and each text is answered.
When the host writes to one dongle the lines of frames that it reads from another, the hardware
of the one is handed the frames that the hardware of the other has received, each of them with
the same identifier, flags and data.
-/

open Transition

namespace CanDongle

/-- A frame text has at most 26 characters. -/
theorem FrameText.length_toList_le (t : FrameText) :
  t.toList.length ≤ 26
  := by
  have hid := t.length_id
  have hdata := t.length_data
  obtain ⟨hdlc, hle⟩ := hexVal_dlc t.dlc_mem
  rw [hdlc] at hle
  have hle : (t.dlc - '0'.toUInt8).toNat ≤ 8 := UInt8.le_iff_toNat_le.mp hle
  have hidLen : idLen t.extended ≤ 8 := by cases t.extended <;> decide
  simp only [toList, List.length_cons, List.length_append]
  split at hdata <;> omega

section Texts

variable {bits : BtrBits} {version : Version}

/-- Where results deliver a line and then more, the line ends. -/
theorem exists_first_line {inp rest : List ℤ} {w : List UInt8}
    (h : inp.filter (· ≠ stmTimeout) = delivered w ++ 13 :: rest) :
  ∃ xs ys, inp = xs ++ 13 :: ys ∧ xs.filter (· ≠ stmTimeout) = delivered w ∧
    ys.filter (· ≠ stmTimeout) = rest
  := by
  obtain ⟨xs, ys, rfl, hxs, hys⟩ := List.filter_eq_append_iff.mp h
  obtain ⟨zs, ys, rfl, hzs, -, hrest⟩ := List.filter_eq_cons_iff.mp hys
  refine ⟨xs ++ zs, ys, (List.append_assoc _ _ _).symm, ?_, hrest⟩
  rw [List.filter_append, hxs, List.filter_eq_nil_iff.mpr hzs, List.append_nil]

/-- A line that starts with a frame text is executed by handing its frame to the hardware, whose
answer is the reply. -/
theorem executed_of_frameText {t : FrameText} {line line' : Line}
    (hline : t.toList <+: line.toList) {d d' : CanDriver} {envs envs' : List Environment}
    (h : slcanDecodeLine (scripted bits) version line (d, envs) = some (line', (d', envs'))) :
  d'.calls = d.calls ++ [.canTransmit t.txFrame] ∧
    ∃ taken : Bool, line'.text = [if taken then cr else bell]
  := by
  have hrequest := request_of_frameText version hline
  have hcalled : calledBy version line = some t.sendCall := by
    rw [calledBy_eq, hrequest]
    rfl
  obtain ⟨taken, hcall, hdecoded⟩ := exists_of_slcanDecodeLine hcalled h
  obtain ⟨line'', hline'', htext⟩ := exists_decoded version line taken
  obtain rfl := Option.some.inj (hdecoded.symm.trans hline'')
  constructor
  · cases envs with
    | nil => cases hcall
    | cons env envs =>
        rw [scripted, canDriver_frameText] at hcall
        cases hcall
        rfl
  · use taken
    rw [htext, hrequest]
    rfl

/-- The results that deliver frame texts, with timeouts between them, have the frames transmitted,
in order, and each of them is answered. -/
theorem transmitted_of_texts {texts : List FrameText} {reader : LineReader}
    (hpos : reader.pos = 0) {inp : List ℤ}
    (hinp : inp.filter (· ≠ stmTimeout) = delivered (texts.flatMap fun t => t.toList ++ [cr]))
    {d d' : CanDriver} {envs envs' : List Environment} {written : List (List UInt8)}
    {waiting : Line × ℕ}
    (hrun : slcanThreadMain (scripted bits) version reader inp (d, envs)
      = some ((written, waiting), (d', envs'))) :
  d'.calls = d.calls ++ texts.map (fun t => .canTransmit t.txFrame) ∧
    ∃ taken : List Bool, taken.length = texts.length ∧
      written = taken.map fun ok => [if ok then cr else bell]
  := by
  induction texts generalizing reader inp d envs written with
  | nil =>
      rw [slcanThreadMain_timeouts (scripted bits) version reader hinp] at hrun
      cases hrun
      exact ⟨(List.append_nil _).symm, [], rfl, rfl⟩
  | cons t texts ih =>
      have hsplit : inp.filter (· ≠ stmTimeout) = delivered t.toList ++ 13 ::
          delivered (texts.flatMap fun t => t.toList ++ [cr]) := by
        rw [hinp, List.flatMap_cons, delivered_append, delivered_append, List.append_assoc]
        rfl
      obtain ⟨xs, ys, rfl, hxs, hys⟩ := exists_first_line hsplit
      have hlength := t.length_toList_le
      obtain ⟨line, hlist, hline⟩ := slcanThreadMain_line (scripted bits) version reader hpos hxs
        t.not_isTerminator (by omega) (by decide : IsTerminator 13)
      rw [hline] at hrun
      obtain ⟨line', ⟨d₁, envs₁⟩, hexecuted, hrun⟩ := exists_of_bind_eq_some hrun
      obtain ⟨⟨later, waiting'⟩, u, hlater, hrun⟩ := exists_of_bind_eq_some hrun
      cases hrun
      obtain ⟨hcalls, taken, htext⟩ := executed_of_frameText ⟨_, hlist.symm⟩ hexecuted
      obtain ⟨hcalls', takens, hlength', hwritten⟩ := ih rfl hys hlater
      refine ⟨?_, taken :: takens, congrArg (· + 1) hlength', ?_⟩
      · rw [hcalls', hcalls, List.append_assoc]
        rfl
      · rw [htext, hwritten]
        rfl

end Texts

/-! ### The frames that were received -/

namespace Dongle

variable {bits bits' : BtrBits} {version version' : Version} {start start' a b b' : Dongle}
  {acts acts' later : List DongleAction}

/-- The frame texts that the host writes are handed to the hardware as they are written, in order,
and once each, and each of them is answered: in every interleaving of the threads, while frames
are received, and in pieces of any size. -/
theorem transmits (hstart : slcanStart bits = some start)
    (h : run (Dongle.step bits version) start acts = some a) (hthread : a.thread = .spinning)
    (hpos : a.reader.pos = 0) (hlater : run (Dongle.step bits version) a later = some b)
    (hthread' : b.thread = .spinning) {texts : List FrameText} (hfits : ∀ t ∈ texts, t.IdFits)
    {read : List ℤ} (hresults : b.results = a.results ++ read)
    (hread : read.filter (· ≠ stmTimeout) = delivered (texts.flatMap fun t => t.toList ++ [cr])) :
  ∃ (frames : List CANTxFrame) (taken : List Bool), List.Forall₂ CANTxFrame.Carries frames texts ∧
    b.calls = a.calls ++ frames.map .canTransmit ∧ taken.length = texts.length ∧
    b.replies = a.replies ++ taken.map fun ok => [if ok then cr else bell]
  := by
  have hinv := ((interleaved_of_run hstart h).restart hthread).run hlater
  obtain ⟨read', written, envs, hread', hwritten, hrun⟩ := (hinv.spinning hthread').2
  obtain rfl : read = read' := List.append_cancel_left (hresults.symm.trans hread')
  obtain ⟨hcalls, taken, hlength, rfl⟩ := transmitted_of_texts hpos hread (hrun [])
  refine ⟨texts.map FrameText.txFrame, taken, ?_, ?_, hlength, hwritten⟩
  · rw [List.forall₂_map_left_iff, List.forall₂_same]
    intro t ht
    apply (carries_txFrame_iff t).mpr (hfits t ht)
  · rw [List.map_map]
    exact hcalls

/-- The host opens the channel, and reads the reply. -/
def openQuietly : List DongleAction :=
  [.get 'O'.toNat, .get 13, .command .canOpen, .command .canStart, .command .semSignal,
    .command .reply, .write (.chMtxLock .command), .write (.putByte .command),
    .write (.writeReturns .command), .write (.chMtxUnlock .command)]

/-- The host writes a line, which calls a function of the driver. -/
def executeLine (line : List UInt8) : List DongleAction :=
  (delivered line).map .get ++ [.call ⟨fun _ => true, fun _ => true⟩]

theorem transmits_fittingText :
  ∃ start a b, slcanStart bxCan = some start ∧
    run (Dongle.step bxCan mockVersion) start openQuietly = some a ∧
    run (Dongle.step bxCan mockVersion) a (executeLine (fittingText.toList ++ [cr])) = some b ∧
    ∃ (frames : List CANTxFrame) (taken : List Bool),
      List.Forall₂ CANTxFrame.Carries frames [fittingText] ∧
      b.calls = a.calls ++ frames.map .canTransmit ∧ taken.length = 1 ∧
      b.replies = a.replies ++ taken.map fun ok => [if ok then cr else bell]
  := by
  obtain ⟨start, a, hstart, ha, hthread, hpos, hlater⟩ : ∃ start a, slcanStart bxCan = some start ∧
      run (Dongle.step bxCan mockVersion) start openQuietly = some a ∧ a.thread = .spinning ∧
      a.reader.pos = 0 ∧ (run (Dongle.step bxCan mockVersion) a
        (executeLine (fittingText.toList ++ [cr]))).any (fun b => b.thread = .spinning ∧
          b.results = a.results ++ delivered (fittingText.toList ++ [cr])) = true :=
    exists_run_of_start (by decide +kernel)
  obtain ⟨b, hb, hthread', hresults⟩ := exists_run_of_any hlater
  have hfits : fittingText.IdFits := by
    unfold FrameText.IdFits
    decide +kernel
  have hread : (delivered (fittingText.toList ++ [cr])).filter (· ≠ stmTimeout)
      = delivered ([fittingText].flatMap fun t => t.toList ++ [cr]) := by decide +kernel
  exact ⟨start, a, b, hstart, ha, hb, transmits hstart ha hthread hpos hb hthread'
    (List.forall_mem_singleton.mpr hfits) hresults hread⟩

end Dongle

end CanDongle
