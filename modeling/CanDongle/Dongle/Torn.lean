import CanDongle.Dongle.Host

/-!
# Writes that are cut short

A call of `chnWriteTimeout` that times out leaves the beginning of a line in the channel, and the
host reads what is written next as the rest of it.  The mutex keeps the calls apart all the same,
so the damage goes no further: a line that is written completely after another one is read as it
is.
-/

open Transition

namespace CanDongle.Dongle

variable {bits : BtrBits} {version : Version} {start s : Dongle} {acts : List DongleAction}

/-- The line is cut short after two characters. -/
def tornLine : List DongleAction :=
  [.write (.chMtxUnlock .command), .write (.chMtxLock .receiver), .write (.putByte .receiver),
    .write (.putByte .receiver), .write (.writeReturns .receiver), .write (.chMtxUnlock .receiver)]

/-- The host sends an unknown command, and the reply to it is being written. -/
def replying : List DongleAction := [.get 'x'.toNat, .get 13, .write (.chMtxLock .command)]

/-- The buffer of a call that has returned is a word. -/
theorem Accounted.isHostWord (h : Accounted s)
    (hwords : ∀ w, ∀ buf ∈ s.passed w, IsHostWord buf) {r : WriteCall × ℕ}
    (hr : r ∈ s.serial.returned) :
  IsHostWord r.1.buf
  := by
  have hmem : r.1.buf ∈ s.writes.map Prod.snd := by
    rw [h.buffers]
    apply List.mem_map_of_mem (f := fun r : WriteCall × ℕ => r.1.buf) hr
  obtain ⟨x, hx, heq⟩ := List.mem_map.mp hmem
  rw [← heq]
  apply hwords x.1 _ (h.mem_passed hx)

/-- Calls the last of which has written everything leave nothing to be read. -/
theorem split_parts {calls : List (WriteCall × ℕ)} (hwords : ∀ q ∈ calls, IsHostWord q.1.buf)
    (hlast : ∀ q ∈ calls.getLast?, q.2 = q.1.buf.length) :
  (Words.split (fun c => decide (IsDelimiter c)) (calls.flatMap WriteCall.part)).2 = []
  := by
  induction calls using List.reverseRecOn with
  | nil => rfl
  | append_singleton calls q =>
      have hword := hwords q (List.mem_append_right _ List.mem_cons_self)
      have hpart : WriteCall.part q = q.1.buf := by
        rw [WriteCall.part, hlast q (by simp), List.take_length]
      obtain ⟨v, vs, hsplit⟩ := Words.split_ends hword (calls.flatMap WriteCall.part)
      rw [List.flatMap_append, List.flatMap_singleton, hpart, hsplit]

/-- A timeout damages what it cuts short, and what is written next.  A reply or the line of a frame
that is written completely, after another one that was, is read by the host as it is: in every
interleaving, whatever else is cut short before and after. -/
theorem damage_confined (hstart : slcanStart bits = some start)
    (h : run (Dongle.step bits version) start acts = some s) (hversion : version.Undelimited)
    (hfits : s.pipeline.DataFits) {before after : List (WriteCall × ℕ)} {r : WriteCall × ℕ}
    (hreturned : s.serial.returned = before ++ r :: after) (hr : r.2 = r.1.buf.length)
    (hbefore : ∀ q ∈ before.getLast?, q.2 = q.1.buf.length) :
  ∃ later, s.bytes = before.flatMap WriteCall.part ++ (r.1.buf ++ later) ∧
    hostWords s.bytes
      = hostWords (before.flatMap WriteCall.part) ++ r.1.buf :: hostWords later
  := by
  have hinv := accounted_of_run hstart h
  obtain ⟨frames, -, hwritten, hvalid⟩ := exists_written (pipeline_of_run hstart h) hfits
  have hword : ∀ q ∈ s.serial.returned, IsHostWord q.1.buf := fun q =>
    hinv.isHostWord fun w buf hbuf =>
      isHostWord_of_passed (replied_of_run hstart h) hwritten hversion hvalid hbuf
  rw [hreturned] at hword
  have hpart : WriteCall.part r = r.1.buf := by rw [WriteCall.part, hr, List.take_length]
  have hbytes : s.bytes = before.flatMap WriteCall.part
      ++ (r.1.buf ++ (after ++ s.serial.current).flatMap WriteCall.part) := by
    rw [hinv.bytes_eq, hreturned, List.append_assoc, List.flatMap_append, List.cons_append,
      List.flatMap_cons, hpart]
  refine ⟨_, hbytes, ?_⟩
  have hends := split_parts (fun q hq => hword q (List.mem_append_left _ hq)) hbefore
  have hr := hword r (List.mem_append_right _ List.mem_cons_self)
  rw [hbytes, hostWords, Words.split_of_ends hends, Words.split_append hr]
  rfl

/-- The host sends a byte, and reads a reply of `n` bytes. -/
def ask (c : Char) (n : ℕ) : List DongleAction :=
  [.get c.toNat, .get 13, .write (.chMtxLock .command)]
    ++ List.replicate n (.write (.putByte .command))
    ++ [.write (.writeReturns .command), .write (.chMtxUnlock .command)]

/-- The calls when an unknown command and `V` are executed after `tornLine`. -/
def tornCalls : List (WriteCall × ℕ) :=
  [(⟨0, [cr]⟩, 1), (⟨1, "t10020000\r".toList.map Char.toUInt8⟩, 2), (⟨2, [bell]⟩, 1)]

def versionCall : WriteCall × ℕ := (⟨3, "hw\r".toList.map Char.toUInt8⟩, 3)

/-- The reply to the unknown command is read as the rest of the line, and the version as it is. -/
theorem damage_confined_versionCall :
  ∃ start s later, slcanStart bxCan = some start ∧
    run (Dongle.step bxCan mockVersion) start (openReceive ++ tornLine ++ ask 'x' 1 ++ ask 'V' 3)
      = some s ∧
    s.serial.returned = tornCalls ++ versionCall :: [] ∧
    hostWords (tornCalls.flatMap WriteCall.part) = [[cr], "t1\u0007".toList.map Char.toUInt8] ∧
    s.bytes = tornCalls.flatMap WriteCall.part ++ (versionCall.1.buf ++ later) ∧
    hostWords s.bytes
      = hostWords (tornCalls.flatMap WriteCall.part) ++ versionCall.1.buf :: hostWords later
  := by
  obtain ⟨start, s, hstart, hrun, hfits, hreturned⟩ : ∃ start s, slcanStart bxCan = some start ∧
      run (Dongle.step bxCan mockVersion) start
        (openReceive ++ tornLine ++ ask 'x' 1 ++ ask 'V' 3) = some s ∧
      s.pipeline.DataFits ∧
      s.serial.returned = tornCalls ++ versionCall :: [] := exists_run_of_start (by decide +kernel)
  have hlast : ∀ q ∈ tornCalls.getLast?, q.2 = q.1.buf.length := by decide +kernel
  obtain ⟨later, hbytes, hwords⟩ := damage_confined hstart hrun
    readable_mockVersion.undelimited hfits hreturned (by decide +kernel) hlast
  exact ⟨start, s, later, hstart, hrun, hreturned, by decide +kernel, hbytes, hwords⟩

end CanDongle.Dongle
