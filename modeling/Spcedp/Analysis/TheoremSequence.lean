import Spcedp.Interface.Session
import Spcedp.Lib.Transition

/-!
# The shared sequence space

Both ends number their frames in one 32-bit space. A session follows the panel's numbers
(`dispatch_nextSeq`) and takes the next one for a command (`allocSeq`). Until the counter
passes `0xFFFFFFFF` a number taken is new. When it passes, it starts again at zero, while the
largest number received may stay where it is, and the run can go on to a number used twice
(`allocSeq_fresh`, `allocSeq_not_fresh`).
-/

set_option autoImplicit false

namespace Spcedp.Client

open Lib.Transition Spcedp.Wire

/-! ## Uses of the sequence space -/

/-- A frame is dispatched, or a number is taken for a command. -/
inductive Use
  | dispatch (now : ℚ) (f : Frame)
  | alloc

/-- One use, with the numbers used so far. -/
def useStep (aes : AesEcb) (st : Session × List ℤ) : Use → Option (Session × List ℤ)
  | .dispatch now f => some ((st.1.dispatch aes now f).1, st.2 ++ [f.sequence])
  | .alloc => some (st.1.allocSeq.1, st.2 ++ [st.1.allocSeq.2])

/-- The panel's numbers are 32-bit numbers. -/
def WireNumbers (uses : List Use) : Prop :=
  ∀ now f, Use.dispatch now f ∈ uses → 0 ≤ f.sequence ∧ f.sequence < 2 ^ 32

/-- Every number taken differs from all numbers used before it. -/
def Fresh (aes : AesEcb) (s₀ : Session) (uses : List Use) : Prop :=
  ∀ pre post s used, uses = pre ++ .alloc :: post →
    run (useStep aes) (s₀, []) pre = some (s, used) → s.allocSeq.2 ∉ used

/-- The counter never stands at the largest 32-bit number when a number is taken. -/
def NoWrap (aes : AesEcb) (s₀ : Session) (uses : List Use) : Prop :=
  ∀ pre post s used, uses = pre ++ .alloc :: post →
    run (useStep aes) (s₀, []) pre = some (s, used) → s.nextSeq ≠ 0xFFFFFFFF

/-- Taking a number below the wrap. -/
theorem allocSeq_of_lt (s : Session) (h₀ : 0 ≤ s.nextSeq) (hlt : s.nextSeq < 0xFFFFFFFF) :
    s.allocSeq.2 = s.nextSeq + 1 := by
  unfold Session.allocSeq
  dsimp only
  rw [mask_cast, Int.emod_eq_of_lt (by omega) (by norm_num; omega)]

/-- Taking a number at the wrap. -/
theorem allocSeq_wrap (s : Session) (h : s.nextSeq = 0xFFFFFFFF) : s.allocSeq.2 = 0 := by
  unfold Session.allocSeq
  dsimp only
  rw [mask_cast, h]
  norm_num

/-- The number allocated is where the counter then stands. -/
theorem allocSeq_nextSeq (s : Session) : s.allocSeq.1.nextSeq = s.allocSeq.2 := rfl

/-- What holds between two uses as long as the counter has not wrapped: it is a 32-bit
number, and no number used is larger. -/
structure Ahead (st : Session × List ℤ) : Prop where
  nonneg : 0 ≤ st.1.nextSeq
  lt : st.1.nextSeq < 2 ^ 32
  le : ∀ q ∈ st.2, q ≤ st.1.nextSeq

/-- **One use** keeps the counter ahead. -/
theorem ahead_step {aes : AesEcb} {st st' : Session × List ℤ} {u : Use} (h : Ahead st)
    (hwire : ∀ now f, u = .dispatch now f → 0 ≤ f.sequence ∧ f.sequence < 2 ^ 32)
    (hwrap : u = .alloc → st.1.nextSeq ≠ 0xFFFFFFFF) (hstep : useStep aes st u = some st') :
    Ahead st' := by
  obtain ⟨hnn, hlt, hle⟩ := h
  cases u with
  | dispatch now f =>
      obtain ⟨hf₀, hf⟩ := hwire now f rfl
      cases hstep
      refine ⟨?_, ?_, ?_⟩
      · rw [Session.dispatch_nextSeq]
        omega
      · rw [Session.dispatch_nextSeq]
        omega
      · intro q hq
        rw [Session.dispatch_nextSeq]
        rcases List.mem_append.mp hq with hq | hq
        · have := hle q hq
          omega
        · rw [List.mem_singleton.mp hq]
          omega
  | alloc =>
      have hne := hwrap rfl
      have hnext := allocSeq_of_lt st.1 hnn (by omega)
      cases hstep
      refine ⟨?_, ?_, ?_⟩
      · rw [allocSeq_nextSeq, hnext]
        omega
      · rw [allocSeq_nextSeq, hnext]
        omega
      · intro q hq
        rw [allocSeq_nextSeq, hnext]
        rcases List.mem_append.mp hq with hq | hq
        · have := hle q hq
          omega
        · rw [List.mem_singleton.mp hq, hnext]

/-- A run without a wrap keeps the counter ahead. -/
theorem ahead_run {aes : AesEcb} {s₀ : Session} {uses : List Use} (h₀ : s₀.nextSeq = 0)
    (hwire : WireNumbers uses) (hwrap : NoWrap aes s₀ uses) :
    ∀ pre st, run (useStep aes) (s₀, []) pre = some st → pre <+: uses → Ahead st := by
  refine run_induction (P := fun pre st => pre <+: uses → Ahead st) ?_ ?_
  · intro _
    exact ⟨h₀.ge, by rw [h₀]; norm_num, by simp⟩
  · rintro pre ⟨s, used⟩ u st' hrun ih hlast ⟨post, hpost⟩
    have hsplit : uses = pre ++ u :: post := by rw [← hpost, List.append_assoc]; rfl
    refine ahead_step (ih ⟨u :: post, hsplit.symm⟩) ?_ ?_ hlast
    · rintro now f rfl
      exact hwire now f (by simp [hsplit])
    · rintro rfl
      exact hwrap pre post s used hsplit hrun

/-- Short of a wrap every number taken is new. -/
theorem fresh_of_noWrap {aes : AesEcb} {s₀ : Session} {uses : List Use} (h₀ : s₀.nextSeq = 0)
    (hwire : WireNumbers uses) (hwrap : NoWrap aes s₀ uses) : Fresh aes s₀ uses := by
  intro pre post s used hsplit hrun hmem
  obtain ⟨hnn, hlt, hle⟩ := ahead_run h₀ hwire hwrap pre _ hrun ⟨_, hsplit.symm⟩
  have hne := hwrap pre post s used hsplit hrun
  have hnext := allocSeq_of_lt s hnn (by simp only at hlt; omega)
  have := hle _ hmem
  rw [hnext] at this
  simp only at this
  omega

/-- A POLL with a given number. -/
def pollWith (sequence : ℤ) : Frame where
  srcId := 1000
  dstId := 1001
  sequence := sequence
  major := MajorCode.session.value
  minor := MinorCode.poll.value

/-- A run that wraps goes on to a number used twice. -/
theorem wrap_repeats {aes : AesEcb} {s₀ s : Session} {pre : List Use} {used : List ℤ}
    (hrun : run (useStep aes) (s₀, []) pre = some (s, used)) (hmax : s.nextSeq = 0xFFFFFFFF) :
    ¬Fresh aes s₀ (pre ++ [.alloc, .dispatch 0 (pollWith 0xFFFFFFFF), .alloc]) := by
  intro hfresh
  set s₁ : Session := (s.allocSeq.1.dispatch aes 0 (pollWith 0xFFFFFFFF)).1 with hs₁
  have hrun₁ : run (useStep aes) (s₀, []) (pre ++ [.alloc, .dispatch 0 (pollWith 0xFFFFFFFF)]) =
      some (s₁, used ++ [s.allocSeq.2] ++ [0xFFFFFFFF]) := by
    rw [run_append, hrun]
    rfl
  have hmax₁ : s₁.nextSeq = 0xFFFFFFFF := by
    rw [hs₁, Session.dispatch_nextSeq, allocSeq_nextSeq, allocSeq_wrap s hmax]
    decide
  have hnot := hfresh (pre ++ [.alloc, .dispatch 0 (pollWith 0xFFFFFFFF)]) [] s₁ _ (by simp) hrun₁
  rw [allocSeq_wrap s₁ hmax₁, allocSeq_wrap s hmax] at hnot
  exact hnot (by simp)

/-- **Freshness, short of a wrap.** As long as the counter does not wrap, every number taken is
new. Where it wraps, the run can go on to a number that is used twice. -/
theorem allocSeq_fresh (aes : AesEcb) (s₀ : Session) (uses : List Use) (h₀ : s₀.nextSeq = 0)
    (hwire : WireNumbers uses) :
    (NoWrap aes s₀ uses → Fresh aes s₀ uses) ∧
    (¬NoWrap aes s₀ uses → ∃ pre more, pre ++ [.alloc] <+: uses ∧
      WireNumbers (pre ++ [.alloc] ++ more) ∧ ¬Fresh aes s₀ (pre ++ [.alloc] ++ more)) := by
  refine ⟨fresh_of_noWrap h₀ hwire, fun hwrap => ?_⟩
  unfold NoWrap at hwrap
  push Not at hwrap
  obtain ⟨pre, post, s, used, hsplit, hrun, hmax⟩ := hwrap
  refine ⟨pre, [.dispatch 0 (pollWith 0xFFFFFFFF), .alloc], ⟨post, by simp [hsplit]⟩, ?_, ?_⟩
  · intro now f hmem
    rw [List.append_assoc, List.mem_append] at hmem
    obtain hmem | hmem := hmem
    · exact hwire now f (hsplit ▸ List.mem_append_left _ hmem)
    · simp only [List.cons_append, List.nil_append, List.mem_cons, reduceCtorEq,
        Use.dispatch.injEq, List.not_mem_nil, or_false, false_or] at hmem
      rw [hmem.2]
      decide
  · rw [List.append_assoc]
    exact wrap_repeats hrun hmax

/-- A new session. -/
def newSession : Session where
  panelId := 1000
  receiverId := 1001

/-- A run that starts near the middle of the space. -/
theorem allocSeq_fresh_poll : Fresh (Lib.BlockCipher.ecb fun _ => 1) newSession
    [.dispatch 0 (pollWith 0xA1E92AAB), .alloc] := by
  refine (allocSeq_fresh _ newSession _ rfl ?_).1 ?_
  · intro now f hmem
    simp only [List.mem_cons, Use.dispatch.injEq, reduceCtorEq, List.not_mem_nil, or_false] at hmem
    rw [hmem.2]
    decide
  · intro pre post s used hsplit hrun
    match pre, hsplit with
    | [u], hsplit =>
        obtain ⟨rfl, -⟩ := List.cons.inj hsplit
        cases hrun
        rw [Session.dispatch_nextSeq]
        decide
    | _ :: _ :: _, hsplit => simp at hsplit

/-! ## At the wrap -/

/-- A panel that has reached the largest number and starts again at zero: the command that
follows takes the number of the frame just dispatched. -/
theorem allocSeq_not_fresh :
    ¬ ∀ (aes : AesEcb) (s₀ : Session) (uses : List Use), s₀.nextSeq = 0 → WireNumbers uses →
      uses.length < 2 ^ 32 → Fresh aes s₀ uses := by
  intro hall
  have haes : AesEcb := Lib.BlockCipher.ecb fun _ => 1
  set polls : List Use := [.dispatch 0 (pollWith 0xFFFFFFFF), .dispatch 1 (pollWith 0)] with hpolls
  have hwire : WireNumbers (polls ++ [.alloc]) := by
    intro now f hmem
    simp only [hpolls, List.cons_append, List.nil_append, List.mem_cons, Use.dispatch.injEq,
      reduceCtorEq, List.not_mem_nil, or_false] at hmem
    obtain ⟨-, rfl⟩ | ⟨-, rfl⟩ := hmem
    · decide
    · decide
  obtain ⟨s, used, hrun, hmax, hzero⟩ : ∃ s used,
      run (useStep haes) (newSession, []) polls = some (s, used) ∧ s.nextSeq = 0xFFFFFFFF ∧
        0 ∈ used := by
    refine ⟨_, _, rfl, ?_, ?_⟩
    · rw [Session.dispatch_nextSeq, Session.dispatch_nextSeq]
      decide
    · simp [pollWith]
  have hfresh := hall haes newSession (polls ++ [.alloc]) rfl hwire (by decide) polls [] s used rfl
    hrun
  rw [allocSeq_wrap s hmax] at hfresh
  exact hfresh hzero

end Spcedp.Client
