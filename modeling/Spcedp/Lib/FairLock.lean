import Mathlib.Data.List.Basic

/-!
# A fair lock for cooperative tasks

A lock that hands itself to its waiters in order: a task that finds it taken queues up,
a release wakes the first waiter, and the woken task takes the lock when it runs next.
A waiter can be cancelled at any time, also after it was woken. `inside` records who got
through `acquire` and has not released yet; nothing in the operations reads it.

`Lock.Wf` is the invariant. Its first two fields are mutual exclusion.
-/

set_option autoImplicit false

namespace Lib.FairLock

/-- The future that a waiting task sleeps on. -/
inductive Waiter
  | pending
  | woken
  | cancelled
  deriving DecidableEq, Repr

structure Lock (T : Type) where
  locked : Bool := false
  waiters : List (T × Waiter) := []
  inside : List T := []
  deriving Repr

namespace Lock

variable {T : Type}

/-- Wake the first waiter, if it is still asleep. -/
def wakeFirst (l : Lock T) : Lock T :=
  match l.waiters with
  | (t, .pending) :: rest => { l with waiters := (t, .woken) :: rest }
  | _ => l

/-- Task `t` calls `acquire`: take the lock, or queue up. -/
def acquire (l : Lock T) (t : T) : Lock T × Bool :=
  if l.locked = false ∧ ∀ w ∈ l.waiters, w.2 = .cancelled then
    ({ l with locked := true, inside := t :: l.inside }, true)
  else ({ l with waiters := l.waiters ++ [(t, .pending)] }, false)

section

variable [DecidableEq T]

/-- The sleep of `t` is cancelled, unless it is over already. -/
def cancel (l : Lock T) (t : T) : Lock T :=
  { l with waiters := l.waiters.map fun w =>
      if w.1 = t ∧ w.2 = .pending then (t, .cancelled) else w }

/-- Take `t` off the queue. -/
def dequeue (l : Lock T) (t : T) : Lock T :=
  { l with waiters := l.waiters.filter (·.1 ≠ t) }

/-- The woken task `t` runs and takes the lock. -/
def enter (l : Lock T) (t : T) : Lock T :=
  { l.dequeue t with locked := true, inside := t :: l.inside }

/-- Task `t` runs after its cancellation and leaves the queue. -/
def giveUp (l : Lock T) (t : T) : Lock T :=
  let l := l.dequeue t
  if l.locked = false then l.wakeFirst else l

/-- Task `t` releases the lock. -/
def release (l : Lock T) (t : T) : Lock T :=
  { l with locked := false, inside := l.inside.erase t }.wakeFirst

end

/-- The invariant. -/
structure Wf (l : Lock T) : Prop where
  locked_iff : l.locked = true ↔ l.inside ≠ []
  inside_le : l.inside.length ≤ 1
  /-- Only the first waiter is ever woken, and only when the lock is free. -/
  woken : ∀ w ∈ l.waiters, w.2 = .woken → l.locked = false ∧ l.waiters.head? = some w
  nodup : (l.waiters.map Prod.fst).Nodup

/-- Is `t` in the queue? -/
def Waits (l : Lock T) (t : T) : Prop := t ∈ l.waiters.map Prod.fst

instance [DecidableEq T] (l : Lock T) (t : T) : Decidable (l.Waits t) := by
  unfold Waits; infer_instance

/-! ## What the operations change -/

section Frame

variable (l : Lock T) (t u : T)

/-- Waking a waiter does not move anyone into the lock. -/
@[simp] theorem wakeFirst_inside : l.wakeFirst.inside = l.inside := by
  unfold wakeFirst
  split <;> rfl

/-- Nor does it take or free the lock. -/
@[simp] theorem wakeFirst_locked : l.wakeFirst.locked = l.locked := by
  unfold wakeFirst
  split <;> rfl

/-- Nor does it change who waits. -/
@[simp] theorem wakeFirst_names : l.wakeFirst.waiters.map Prod.fst = l.waiters.map Prod.fst := by
  unfold wakeFirst
  split
  · rename_i heq
    simp [heq]
  · rfl

/-- Whoever gets the lock at once is inside. -/
theorem acquire_inside :
    (l.acquire t).1.inside = if (l.acquire t).2 then t :: l.inside else l.inside := by
  unfold acquire
  split <;> rfl

/-- Whoever does not get the lock at once waits. -/
theorem waits_acquire :
    (l.acquire t).1.Waits u ↔ l.Waits u ∨ (l.acquire t).2 = false ∧ u = t := by
  unfold acquire Waits
  split <;> simp

/-- A waiter that is woken is still in the queue. -/
@[simp] theorem waits_wakeFirst : l.wakeFirst.Waits u ↔ l.Waits u := by
  unfold Waits
  rw [wakeFirst_names]

variable [DecidableEq T]

/-- A cancelled sleeper stays in the queue until it runs. -/
@[simp] theorem cancel_names : (l.cancel t).waiters.map Prod.fst = l.waiters.map Prod.fst := by
  unfold cancel
  rw [List.map_map]
  apply List.map_congr_left
  rintro ⟨v, s⟩ -
  simp only [Function.comp_apply]
  split
  · rename_i h
    exact h.1.symm
  · rfl

/-- One name leaves the queue, and the others keep their order. -/
theorem dequeue_names :
    (l.dequeue t).waiters.map Prod.fst = (l.waiters.map Prod.fst).filter (· ≠ t) := by
  unfold dequeue
  rw [List.filter_map]
  rfl

/-- The queue has the same waiters after a cancellation. -/
@[simp] theorem waits_cancel : (l.cancel t).Waits u ↔ l.Waits u := by
  unfold Waits
  rw [cancel_names]

/-- Only `t` leaves the queue. -/
@[simp] theorem waits_dequeue : (l.dequeue t).Waits u ↔ l.Waits u ∧ u ≠ t := by
  unfold Waits
  rw [dequeue_names, List.mem_filter, decide_eq_true_eq]

/-- A cancellation does not touch who is inside. -/
@[simp] theorem cancel_inside : (l.cancel t).inside = l.inside := rfl

/-- A waiter that enters is inside. -/
@[simp] theorem enter_inside : (l.enter t).inside = t :: l.inside := rfl

/-- A waiter that enters waits no longer. -/
@[simp] theorem waits_enter : (l.enter t).Waits u ↔ l.Waits u ∧ u ≠ t := waits_dequeue l t u

/-- Giving up does not touch who is inside. -/
@[simp] theorem giveUp_inside : (l.giveUp t).inside = l.inside := by
  unfold giveUp
  dsimp only
  split
  · exact wakeFirst_inside _
  · rfl

/-- Whoever gives up waits no longer. -/
@[simp] theorem waits_giveUp : (l.giveUp t).Waits u ↔ l.Waits u ∧ u ≠ t := by
  unfold giveUp
  dsimp only
  split
  · rw [waits_wakeFirst, waits_dequeue]
  · exact waits_dequeue l t u

/-- Whoever releases the lock is outside. -/
@[simp] theorem release_inside : (l.release t).inside = l.inside.erase t :=
  wakeFirst_inside _

/-- The queue has the same waiters after a release. -/
@[simp] theorem waits_release : (l.release t).Waits u ↔ l.Waits u := by
  unfold release
  rw [waits_wakeFirst]
  rfl

end Frame

/-! ## The invariant is kept -/

section Invariant

variable {l : Lock T} {t : T}

/-- A new lock. -/
theorem wf_empty : ({} : Lock T).Wf := ⟨by simp, by simp, by simp, by simp⟩

/-- Waking the first waiter of a free lock. -/
theorem Wf.wakeFirst (hwf : l.Wf) (hfree : l.locked = false) : l.wakeFirst.Wf := by
  refine ⟨by simpa using hwf.locked_iff, by simpa using hwf.inside_le, ?_,
    by simpa using hwf.nodup⟩
  intro w hw hwoken
  refine ⟨by rw [wakeFirst_locked]; exact hfree, ?_⟩
  unfold Lock.wakeFirst at hw ⊢
  split at hw
  · rename_i v rest heq
    dsimp only at hw ⊢
    rcases List.mem_cons.mp hw with rfl | hw
    · rfl
    · have hhead := (hwf.woken w (by rw [heq]; exact List.mem_cons_of_mem _ hw) hwoken).2
      rw [heq, List.head?_cons, Option.some.injEq] at hhead
      rw [← hhead] at hwoken
      cases hwoken
  · exact (hwf.woken w hw hwoken).2

/-- A task that queues up or finds the lock free. -/
theorem Wf.acquire (hwf : l.Wf) (hnew : ¬l.Waits t) : (l.acquire t).1.Wf := by
  unfold Lock.acquire
  split
  · rename_i hfree
    have hnone : l.inside = [] := by
      by_contra hne
      exact absurd (hwf.locked_iff.mpr hne) (by simp [hfree.1])
    refine ⟨by simp, by simp [hnone], ?_, hwf.nodup⟩
    intro w hw hwoken
    rw [hfree.2 w hw] at hwoken
    cases hwoken
  · refine ⟨hwf.locked_iff, hwf.inside_le, ?_, ?_⟩
    · intro w hw hwoken
      rcases List.mem_append.mp hw with hw | hw
      · obtain ⟨hfree, hhead⟩ := hwf.woken w hw hwoken
        refine ⟨hfree, ?_⟩
        rw [List.head?_append, hhead, Option.some_or]
      · rw [List.mem_singleton] at hw
        rw [hw] at hwoken
        cases hwoken
    · rw [List.map_append, List.nodup_append]
      refine ⟨hwf.nodup, by simp, ?_⟩
      intro a ha b hb
      rw [List.map_singleton, List.mem_singleton] at hb
      rintro rfl
      exact hnew (by rw [hb] at ha; exact ha)

/-- **Mutual exclusion**: whoever is inside is alone. -/
theorem Wf.inside_eq (hwf : l.Wf) (ht : t ∈ l.inside) : l.inside = [t] := by
  have hle := hwf.inside_le
  match hinside : l.inside, hle with
  | [], _ => rw [hinside] at ht; cases ht
  | [v], _ =>
      rw [hinside, List.mem_singleton] at ht
      rw [ht]

/-- **Mutual exclusion**: two tasks inside are one. -/
theorem Wf.inside_unique (hwf : l.Wf) {u : T} (ht : t ∈ l.inside) (hu : u ∈ l.inside) : t = u := by
  rw [hwf.inside_eq hu, List.mem_singleton] at ht
  exact ht

variable [DecidableEq T]

/-- A cancellation keeps the invariant. -/
theorem Wf.cancel (hwf : l.Wf) : (l.cancel t).Wf := by
  refine ⟨hwf.locked_iff, hwf.inside_le, ?_, by simpa using hwf.nodup⟩
  intro w hw hwoken
  have hsame : w ∈ l.waiters ∧ ∀ v ∈ l.waiters, v = w →
      (if v.1 = t ∧ v.2 = .pending then (t, .cancelled) else v) = w := by
    obtain ⟨v, hv, hvw⟩ := List.mem_map.mp hw
    split at hvw
    · rw [← hvw] at hwoken
      cases hwoken
    · subst hvw
      refine ⟨hv, ?_⟩
      rintro _ - rfl
      rw [if_neg (by assumption)]
  obtain ⟨hfree, hhead⟩ := hwf.woken w hsame.1 hwoken
  refine ⟨hfree, ?_⟩
  unfold Lock.cancel
  rw [List.head?_map, hhead, Option.map_some, hsame.2 w hsame.1 rfl]

/-- Leaving the queue keeps the order of the others. -/
theorem Wf.dequeue (hwf : l.Wf) (t : T) : (l.dequeue t).Wf := by
  refine ⟨hwf.locked_iff, hwf.inside_le, ?_, ?_⟩
  · intro w hw hwoken
    obtain ⟨hw, hne⟩ := List.mem_filter.mp hw
    obtain ⟨hfree, hhead⟩ := hwf.woken w hw hwoken
    refine ⟨hfree, ?_⟩
    obtain ⟨rest, hrest⟩ := List.head?_eq_some_iff.mp hhead
    unfold Lock.dequeue
    dsimp only
    rw [hrest, List.filter_cons, if_pos hne, List.head?_cons]
  · rw [dequeue_names]
    exact hwf.nodup.filter _

/-- **The woken waiter takes a free lock.** -/
theorem Wf.enter (hwf : l.Wf) (hwoken : (t, Waiter.woken) ∈ l.waiters) : (l.enter t).Wf := by
  obtain ⟨hfree, hhead⟩ := hwf.woken _ hwoken rfl
  have hnone : l.inside = [] := by
    by_contra hne
    exact absurd (hwf.locked_iff.mpr hne) (by simp [hfree])
  obtain ⟨rest, hrest⟩ := List.head?_eq_some_iff.mp hhead
  refine ⟨by simp [Lock.enter], by simp [hnone], ?_, (hwf.dequeue t).nodup⟩
  intro w hw hw'
  have hmem := List.mem_filter.mp hw
  have hw'' := (hwf.woken w hmem.1 hw').2
  rw [hhead, Option.some.injEq] at hw''
  have hne : w.1 ≠ t := by simpa using hmem.2
  exact absurd (congrArg Prod.fst hw'').symm hne

/-- Giving up keeps the invariant. -/
theorem Wf.giveUp (hwf : l.Wf) (t : T) : (l.giveUp t).Wf := by
  unfold Lock.giveUp
  dsimp only
  split
  · rename_i hfree
    exact (hwf.dequeue t).wakeFirst hfree
  · exact hwf.dequeue t

/-- A release by the task inside keeps the invariant. -/
theorem Wf.release (hwf : l.Wf) (hin : t ∈ l.inside) : (l.release t).Wf := by
  have hlocked : l.locked = true := hwf.locked_iff.mpr (List.ne_nil_of_mem hin)
  have hone : l.inside = [t] := by
    have hle := hwf.inside_le
    match hinside : l.inside, hin, hle with
    | [u], hin, _ => rw [List.mem_singleton.mp hin]
  refine Wf.wakeFirst ⟨by simp [hone], by simp [hone], ?_, hwf.nodup⟩ rfl
  intro w hw hwoken
  exact absurd (hwf.woken w hw hwoken).1 (by simp [hlocked])

/-- The task that releases the lock is not inside any more. -/
theorem Wf.mem_release (hwf : l.Wf) {u : T} : u ∈ (l.release t).inside ↔ u ∈ l.inside ∧ u ≠ t := by
  rw [release_inside]
  by_cases hut : u = t
  · subst hut
    have hle := hwf.inside_le
    match l.inside, hle with
    | [], _ => simp
    | [v], _ =>
        by_cases hv : v = u
        · simp [hv]
        · have huv : u ≠ v := fun h => hv h.symm
          simp [hv, huv]
  · rw [List.mem_erase_of_ne hut]
    simp [hut]

end Invariant

/-! ## No wake-up is lost -/

/-- A free lock has nobody asleep at the head of its queue. -/
def Awake (l : Lock T) : Prop := l.locked = false → ∀ w ∈ l.waiters.head?, w.2 ≠ .pending

section Awake

variable {l : Lock T} {t : T}

/-- Nobody sleeps at a new lock. -/
theorem awake_empty : ({} : Lock T).Awake := fun _ _ h => by cases h

/-- There is nothing to show while the lock is taken. -/
theorem awake_of_locked (h : l.locked = true) : l.Awake := by
  intro hfree
  rw [h] at hfree
  cases hfree

/-- Once the first waiter is woken, nobody sleeps at the head. -/
theorem awake_wakeFirst : l.wakeFirst.Awake := by
  intro _ w hw hpending
  unfold wakeFirst at hw
  split at hw
  · cases hw
    cases hpending
  · next hnot =>
      obtain ⟨u, state⟩ := w
      obtain ⟨rest, hrest⟩ := List.head?_eq_some_iff.mp hw
      dsimp only at hpending
      subst hpending
      exact hnot u rest hrest

/-- A task that queues up does not come first if the lock is free. -/
theorem Awake.acquire (h : l.Awake) (t : T) : (l.acquire t).1.Awake := by
  unfold Lock.acquire
  split
  · exact awake_of_locked rfl
  · next hbusy =>
      intro hfree w hw
      cases hwaiters : l.waiters with
      | nil => exact absurd ⟨hfree, by simp [hwaiters]⟩ hbusy
      | cons v rest =>
          rw [hwaiters] at hw
          exact h hfree w (by rw [hwaiters]; exact hw)

variable [DecidableEq T]

/-- A cancellation puts nobody to sleep. -/
theorem Awake.cancel (h : l.Awake) (t : T) : (l.cancel t).Awake := by
  intro hfree w hw
  unfold Lock.cancel at hw
  rw [List.head?_map] at hw
  obtain ⟨v, hv, rfl⟩ := Option.map_eq_some_iff.mp hw
  split
  · exact nofun
  · exact h hfree v hv

/-- The lock is taken when a waiter has entered. -/
theorem awake_enter : (l.enter t).Awake := awake_of_locked rfl

/-- A waiter that gives up passes the wake-up on. -/
theorem awake_giveUp : (l.giveUp t).Awake := by
  unfold Lock.giveUp
  dsimp only
  split
  · exact awake_wakeFirst
  · next hbusy => exact awake_of_locked (Bool.not_eq_false _ ▸ hbusy)

/-- A release wakes the first waiter. -/
theorem awake_release : (l.release t).Awake := awake_wakeFirst

end Awake

/-- Nobody has cancelled the sleep of task `t`. -/
def Sleeps (l : Lock T) (t : T) : Prop := (t, Waiter.cancelled) ∉ l.waiters

section Sleeps

variable {l : Lock T} {t u : T}

/-- Waking cancels no sleep. -/
theorem Sleeps.wakeFirst (h : l.Sleeps t) : l.wakeFirst.Sleeps t := by
  intro hmem
  unfold Lock.wakeFirst at hmem
  split at hmem
  · next v rest heq =>
      rw [List.mem_cons] at hmem
      obtain hmem | hmem := hmem
      · cases hmem
      · exact h (by rw [heq]; exact List.mem_cons_of_mem _ hmem)
  · exact h hmem

/-- Another call of `acquire` cancels no sleep. -/
theorem Sleeps.acquire (h : l.Sleeps t) (u : T) : (l.acquire u).1.Sleeps t := by
  unfold Lock.acquire
  split
  · exact h
  · intro hmem
    rw [List.mem_append] at hmem
    obtain hmem | hmem := hmem
    · exact h hmem
    · simp at hmem

/-- **The last task in the queue of a free lock has been woken.** -/
theorem Wf.woken_of_alone (hwf : l.Wf) (hawake : l.Awake) (hsleeps : l.Sleeps t)
    (hfree : l.inside = []) (hwaits : l.Waits t) (halone : ∀ u, l.Waits u → u = t) :
    (t, Waiter.woken) ∈ l.waiters := by
  have hunlocked : l.locked = false := by
    rw [Bool.eq_false_iff, ne_eq, hwf.locked_iff, not_not]
    exact hfree
  cases hwaiters : l.waiters with
  | nil => simp [Waits, hwaiters] at hwaits
  | cons w rest =>
      obtain ⟨u, state⟩ := w
      obtain rfl : u = t := halone u (by simp [Waits, hwaiters])
      cases state with
      | pending => exact absurd rfl (hawake hunlocked (u, .pending) (by simp [hwaiters]))
      | woken => exact List.mem_cons_self
      | cancelled => exact absurd (by simp [hwaiters]) hsleeps

variable [DecidableEq T]

/-- Cancelling the sleep of another task leaves this one. -/
theorem Sleeps.cancel (h : l.Sleeps t) (hne : u ≠ t) : (l.cancel u).Sleeps t := by
  intro hmem
  unfold Lock.cancel at hmem
  obtain ⟨v, hv, hvt⟩ := List.mem_map.mp hmem
  split at hvt
  · cases hvt
    exact hne rfl
  · exact h (hvt ▸ hv)

/-- Leaving the queue cancels no sleep. -/
theorem Sleeps.dequeue (h : l.Sleeps t) (u : T) : (l.dequeue u).Sleeps t :=
  fun hmem => h (List.mem_of_mem_filter hmem)

/-- Giving up cancels no sleep. -/
theorem Sleeps.giveUp (h : l.Sleeps t) (u : T) : (l.giveUp u).Sleeps t := by
  unfold Lock.giveUp
  dsimp only
  split
  · exact (h.dequeue u).wakeFirst
  · exact h.dequeue u

/-- A release cancels no sleep. -/
theorem Sleeps.release (h : l.Sleeps t) (u : T) : (l.release u).Sleeps t := by
  have hfreed : Lock.Sleeps { l with locked := false, inside := l.inside.erase u } t := h
  exact hfreed.wakeFirst

end Sleeps

/-! ## Who comes first -/

section Before

variable {l : Lock T} {t u : T} [DecidableEq T]

/-- The tasks that come before the waiter `t`. -/
def before (l : Lock T) (t : T) : List T :=
  l.inside ++ (l.waiters.map Prod.fst).takeWhile (· ≠ t)

/-- Waking a waiter changes nobody's place in the queue. -/
theorem before_wakeFirst : l.wakeFirst.before t = l.before t := by
  simp [before]

/-- Cancelling a sleep changes nobody's place in the queue. -/
theorem before_cancel : (l.cancel u).before t = l.before t := by
  simp [before]

/-- What comes behind the first occurrence does not matter. -/
theorem takeWhile_ne_append {names more : List T} (hmem : t ∈ names) :
    (names ++ more).takeWhile (· ≠ t) = names.takeWhile (· ≠ t) := by
  induction names with
  | nil => cases hmem
  | cons v names ih =>
      by_cases hvt : v = t
      · simp [hvt]
      · rw [List.cons_append, List.takeWhile_cons_of_pos (by simpa using hvt),
          List.takeWhile_cons_of_pos (by simpa using hvt),
          ih ((List.mem_cons.mp hmem).resolve_left (Ne.symm hvt))]

/-- Nobody gets in front of a task that sleeps in the queue. -/
theorem before_acquire (hwaits : l.Waits t) (hsleeps : l.Sleeps t) :
    (l.acquire u).1.before t = l.before t := by
  obtain ⟨⟨t', state⟩, hmem, rfl⟩ := List.mem_map.mp hwaits
  have hbusy : ¬(l.locked = false ∧ ∀ w ∈ l.waiters, w.2 = .cancelled) := by
    rintro ⟨-, hall⟩
    obtain rfl : state = .cancelled := hall _ hmem
    exact hsleeps hmem
  unfold acquire before
  rw [if_neg hbusy]
  dsimp only
  rw [List.map_append, takeWhile_ne_append hwaits]

/-- When another waiter leaves, at most that one is no longer ahead. -/
theorem before_dequeue (hne : u ≠ t) : ((l.dequeue u).before t).Sublist (l.before t) := by
  unfold before
  rw [dequeue_names]
  refine List.Sublist.append_left ?_ _
  generalize l.waiters.map Prod.fst = names
  induction names with
  | nil => exact .slnil
  | cons v names ih =>
      by_cases hvt : v = t
      · subst hvt
        rw [List.filter_cons_of_pos (by simpa using hne.symm)]
        simp
      · by_cases hvu : v = u
        · rw [List.filter_cons_of_neg (by simpa using hvu),
            List.takeWhile_cons_of_pos (by simpa using hvt)]
          exact ih.cons _
        · rw [List.filter_cons_of_pos (by simpa using hvu),
            List.takeWhile_cons_of_pos (by simpa using hvt),
            List.takeWhile_cons_of_pos (by simpa using hvt)]
          exact ih.cons_cons _

/-- When another waiter gives up, at most that one is no longer ahead. -/
theorem before_giveUp (hne : u ≠ t) : ((l.giveUp u).before t).Sublist (l.before t) := by
  unfold giveUp
  dsimp only
  split
  · rw [before_wakeFirst]
    exact before_dequeue hne
  · exact before_dequeue hne

/-- A release changes nobody's place in the queue. -/
theorem before_release : ((l.release u).before t).Sublist (l.before t) := by
  unfold release
  rw [before_wakeFirst]
  exact List.Sublist.append_right List.erase_sublist _

/-- The woken task was the first in the queue, and the others stay. -/
theorem Wf.waiters_eq (hwf : l.Wf) (hwoken : (u, Waiter.woken) ∈ l.waiters) :
    l.waiters = (u, .woken) :: (l.dequeue u).waiters := by
  obtain ⟨-, hhead⟩ := hwf.woken _ hwoken rfl
  obtain ⟨rest, hrest⟩ := List.head?_eq_some_iff.mp hhead
  have hnodup := hwf.nodup
  rw [hrest, List.map_cons, List.nodup_cons] at hnodup
  unfold Lock.dequeue
  dsimp only
  rw [hrest, List.filter_cons_of_neg (by simp), List.filter_eq_self.mpr]
  intro v hv
  rw [decide_eq_true_eq]
  rintro rfl
  exact hnodup.1 (List.mem_map.mpr ⟨v, hv, rfl⟩)

/-- The task that enters was the first one anyway. -/
theorem Wf.before_enter (hwf : l.Wf) (hwoken : (u, Waiter.woken) ∈ l.waiters) (hne : u ≠ t) :
    ((l.enter u).before t).Sublist (l.before t) := by
  obtain ⟨hfree, -⟩ := hwf.woken _ hwoken rfl
  have hnone : l.inside = [] := by
    by_contra hin
    exact absurd (hwf.locked_iff.mpr hin) (by simp [hfree])
  have hnames : (l.enter u).waiters = (l.dequeue u).waiters := rfl
  unfold before
  rw [hnames, enter_inside, hnone, hwf.waiters_eq hwoken, List.map_cons,
    List.takeWhile_cons_of_pos (by simpa using hne)]
  exact List.Sublist.refl _

/-- The first task in line holds the lock, or its sleep is over. -/
theorem Wf.head_before (hwf : l.Wf) (hawake : l.Awake) (hwaits : l.Waits t) {v : T}
    (hhead : (l.before t ++ [t]).head? = some v) :
    v ∈ l.inside ∨ (v, Waiter.woken) ∈ l.waiters ∨ (v, Waiter.cancelled) ∈ l.waiters := by
  unfold before at hhead
  cases hinside : l.inside with
  | cons u rest =>
      rw [hinside] at hhead
      cases hhead
      exact .inl List.mem_cons_self
  | nil =>
      right
      have hfree : l.locked = false := by
        rw [Bool.eq_false_iff, ne_eq, hwf.locked_iff, not_not]
        exact hinside
      rw [hinside, List.nil_append] at hhead
      cases hwaiters : l.waiters with
      | nil => simp [Waits, hwaiters] at hwaits
      | cons w rest =>
          obtain ⟨u, state⟩ := w
          have huv : u = v := by
            rw [hwaiters, List.map_cons] at hhead
            by_cases hut : u = t
            · rw [List.takeWhile_cons_of_neg (by simpa using hut)] at hhead
              cases hhead
              exact hut
            · rw [List.takeWhile_cons_of_pos (by simpa using hut)] at hhead
              cases hhead
              rfl
          subst huv
          cases state with
          | pending => exact absurd rfl (hawake hfree (u, .pending) (by rw [hwaiters]; rfl))
          | woken => exact .inl List.mem_cons_self
          | cancelled => exact .inr List.mem_cons_self

end Before

/-! ## First come, first served -/

section Sleepers

variable {l : Lock T} {t : T}

/-- The waiters whose sleep has not been cancelled, in order. -/
def sleepers (l : Lock T) : List T := (l.waiters.filter (·.2 ≠ .cancelled)).map Prod.fst

/-- A waiter that is woken was not cancelled. -/
@[simp] theorem sleepers_wakeFirst : l.wakeFirst.sleepers = l.sleepers := by
  unfold wakeFirst sleepers
  split
  · rename_i heq
    simp [heq]
  · rfl

/-- A task gets in at once only if nobody sleeps in the queue. -/
theorem sleepers_acquire (t : T) : (l.acquire t).2 = true ∧ l.sleepers = [] ∧
      (l.acquire t).1.sleepers = [] ∨
    (l.acquire t).2 = false ∧ (l.acquire t).1.sleepers = l.sleepers ++ [t] := by
  unfold acquire
  split
  · rename_i hfree
    have hnone : l.sleepers = [] := by
      unfold sleepers
      rw [List.map_eq_nil_iff, List.filter_eq_nil_iff]
      intro w hw
      simpa using hfree.2 w hw
    exact .inl ⟨rfl, hnone, hnone⟩
  · right
    simp [sleepers]

variable [DecidableEq T] {u : T}

/-- A cancellation takes a waiter out, and keeps the order. -/
theorem sleepers_cancel : (l.cancel u).sleepers.Sublist l.sleepers := by
  unfold cancel sleepers
  dsimp only
  induction l.waiters with
  | nil => exact .slnil
  | cons w waiters ih =>
      rw [List.map_cons]
      by_cases hw : w.1 = u ∧ w.2 = .pending
      · rw [if_pos hw, List.filter_cons_of_neg (by simp),
          List.filter_cons_of_pos (by simp [hw.2]), List.map_cons]
        exact ih.cons _
      · rw [if_neg hw]
        by_cases hcancelled : w.2 = .cancelled
        · rwa [List.filter_cons_of_neg (by simpa using hcancelled),
            List.filter_cons_of_neg (by simpa using hcancelled)]
        · rw [List.filter_cons_of_pos (by simpa using hcancelled),
            List.filter_cons_of_pos (by simpa using hcancelled), List.map_cons, List.map_cons]
          exact ih.cons_cons _

/-- Giving up takes a waiter out at most, and keeps the order. -/
theorem sleepers_giveUp : (l.giveUp u).sleepers.Sublist l.sleepers := by
  have hdequeue : (l.dequeue u).sleepers.Sublist l.sleepers :=
    (List.filter_sublist.filter _).map _
  unfold giveUp
  dsimp only
  split
  · rwa [sleepers_wakeFirst]
  · exact hdequeue

/-- A release keeps the waiters and their order. -/
@[simp] theorem sleepers_release : (l.release u).sleepers = l.sleepers := sleepers_wakeFirst

/-- **The lock goes to the first of those who sleep in the queue.** -/
theorem Wf.sleepers_enter (hwf : l.Wf) (hwoken : (t, Waiter.woken) ∈ l.waiters) :
    l.sleepers = t :: (l.enter t).sleepers := by
  have hnames : (l.enter t).waiters = (l.dequeue t).waiters := rfl
  unfold sleepers
  rw [hnames, hwf.waiters_eq hwoken, List.filter_cons_of_pos (by simp), List.map_cons]

end Sleepers

end Lock

end Lib.FairLock
