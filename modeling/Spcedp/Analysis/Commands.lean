import Spcedp.Interface.Commands
import Spcedp.Lib.Transition

/-!
# The invariant of the command machine

`Inv` ties the tasks to the command lock, the futures and the two dictionaries: a task is
inside the lock exactly while it is in the middle of a command, every registered future
carries the channel and the number it is registered under, and the future that a task
waits for is registered as long as it is pending. `inv_step` shows that every action keeps
it, whatever the order of replies, timeouts, cancellations and teardown.
-/

set_option autoImplicit false

namespace Spcedp.Client

open Lib.FairLock Lib.Transition Spcedp.Wire Spcedp.Xmlcmd

/-! ## Futures and dictionaries along a call -/

/-- Neither futures nor dictionaries have changed. -/
structure SameMaps (s s' : Session) : Prop where
  futures : s'.futures = s.futures
  pending : ∀ c, s'.pendingOf c = s.pendingOf c

/-- A session has the same maps as itself. -/
theorem SameMaps.refl (s : Session) : SameMaps s s := ⟨rfl, fun _ => rfl⟩

section Calls

variable {aes : AesEcb} {s s' : Session} {f : Frame} {now : ℚ}

/-- Queueing a frame does not touch the futures, the dictionaries or the lock. -/
theorem send_same (h : s.send aes f = .ok s') :
    SameMaps s s' ∧ s'.commandLock = s.commandLock := by
  obtain ⟨data, f', -, ⟨-, rfl⟩ | ⟨-, warned, rfl⟩⟩ := Session.send_cases h
  · exact ⟨⟨rfl, fun c => by cases c <;> rfl⟩, rfl⟩
  · exact ⟨⟨rfl, fun c => by cases c <;> rfl⟩, rfl⟩

/-- What a dispatched frame does to futures and dictionaries: a reply takes the request it
answers off its dictionary and completes its future; nothing else changes. -/
theorem dispatch_maps (aes : AesEcb) (s : Session) (now : ℚ) (f : Frame) :
    (s.dispatch aes now f).1.commandLock = s.commandLock ∧
    (SameMaps s (s.dispatch aes now f).1 ∨ ∃ c n, IsReply c f ∧
      (s.pendingOf c).lookup f.sequence = some n ∧
      (s.dispatch aes now f).1.futures = complete s.futures n (.result f.payload) ∧
      (s.dispatch aes now f).1.pendingOf c = (s.pendingOf c).erase f.sequence ∧
      ∀ c' ≠ c, (s.dispatch aes now f).1.pendingOf c' = s.pendingOf c') := by
  have hreceived : ∀ c, (s.received now f).pendingOf c = s.pendingOf c := by
    intro c
    cases c <;> rfl
  have hsame : SameMaps s (s.received now f) := ⟨rfl, hreceived⟩
  obtain ⟨c, hc, h⟩ | ⟨m, s₁, -, hecho, polls, ready, events, -, h⟩ | ⟨m, e, -, -, h⟩ |
    ⟨-, -, h⟩ := Session.dispatch_cases aes s now f
  · rw [h]
    dsimp only
    unfold Session.dispatchReply
    rw [hreceived]
    cases hlookup : (s.pendingOf c).lookup f.sequence with
    | none => exact ⟨rfl, .inl hsame⟩
    | some n =>
        refine ⟨by cases c <;> rfl, .inr ⟨c, n, hc, hlookup, ?_, ?_, ?_⟩⟩
        · cases c <;> rfl
        · cases c <;> rfl
        · intro c' hne
          cases c <;> cases c' <;> first | rfl | exact absurd rfl hne
  · obtain ⟨hmaps, hlock⟩ := send_same hecho
    rw [h]
    refine ⟨hlock, .inl ⟨hmaps.futures, fun c => ?_⟩⟩
    rw [← hreceived c, ← hmaps.pending c]
    cases c <;> rfl
  · rw [h]
    exact ⟨rfl, .inl hsame⟩
  · rw [h]
    exact ⟨rfl, .inl hsame⟩

/-- Futures and dictionaries after a future was registered. -/
structure Registered (s : Session) (c : Channel) (s' : Session) : Prop where
  futures : s'.futures =
    s.futures ++ [{ state := .pending, channel := c, seq := s.allocSeq.2 }]
  pending : s'.pendingOf c = (s.pendingOf c).insert s.allocSeq.2 s.futures.length
  other : ∀ c' ≠ c, s'.pendingOf c' = s.pendingOf c'

/-- The registration of a request registers it, and leaves the lock. -/
theorem registered_registered (s : Session) (c : Channel) :
    Registered s c (s.registered c) ∧ (s.registered c).commandLock = s.commandLock := by
  refine ⟨⟨by cases c <;> rfl, by cases c <;> rfl, ?_⟩, by cases c <;> rfl⟩
  intro c' hne
  cases c <;> cases c' <;> first | rfl | exact absurd rfl hne

/-- What is registered stays so while the maps are the same. -/
theorem SameMaps.registered {s₁ : Session} {c : Channel} (hsame : SameMaps s₁ s')
    (h : Registered s c s₁) : Registered s c s' :=
  ⟨hsame.futures.trans h.futures, (hsame.pending c).trans h.pending,
    fun c' hne => (hsame.pending c').trans (h.other c' hne)⟩

/-- **What a segment does to futures and dictionaries**, and where it leaves the task. -/
theorem ends_maps {env : Env} {r : Request} {given : Option Bytes} {pc : Pc}
    {last last' : Option (Frame × ℕ)} (h : Ends env now s r given last s' pc last') :
    s'.commandLock = s.commandLock ∧
    (SameMaps s s' ∧ last' = last ∧ (pc = .quiet ∨ ∃ o, pc = .finished o ∧
        (o = .ok → ∃ rest, given = some (replyOk :: rest))) ∨
      Registered s r.channel s' ∧ ((∃ o, pc = .finished o ∧ o ≠ .ok) ∨
        pc = .awaiting s.futures.length s.allocSeq.2 ∧
        ∃ payload, last' = some (s.request r.channel payload, s.futures.length))) := by
  cases h with
  | stopped hok => exact ⟨rfl, .inl ⟨.refl _, rfl, .inr ⟨_, rfl, hok⟩⟩⟩
  | asleep => exact ⟨rfl, .inl ⟨.refl _, rfl, .inl rfl⟩⟩
  | unbuilt _ hpayload =>
      obtain ⟨e, rfl⟩ := buildError_of_payload hpayload
      exact ⟨rfl, .inl ⟨⟨rfl, fun c => by cases c <;> rfl⟩, rfl, .inr ⟨_, rfl, nofun⟩⟩⟩
  | unencoded =>
      obtain ⟨hreg, hlock⟩ := registered_registered s r.channel
      exact ⟨hlock, .inr ⟨hreg, .inl ⟨_, rfl, nofun⟩⟩⟩
  | sent _ hsend =>
      obtain ⟨hreg, hlock⟩ := registered_registered s r.channel
      obtain ⟨hsame, hlock'⟩ := send_same hsend
      exact ⟨hlock'.trans hlock, .inr ⟨hsame.registered hreg, .inr ⟨rfl, _, rfl⟩⟩⟩

/-- A segment leaves its task inside the lock or at its end. -/
theorem Ends.pc_cases {env : Env} {r : Request} {given : Option Bytes} {pc : Pc}
    {last last' : Option (Frame × ℕ)} (h : Ends env now s r given last s' pc last') :
    pc.InCommand ∨ ∃ o, pc = .finished o := by
  cases h with
  | stopped => exact .inr ⟨_, rfl⟩
  | asleep => exact .inl trivial
  | unbuilt => exact .inr ⟨_, rfl⟩
  | unencoded => exact .inr ⟨_, rfl⟩
  | sent => exact .inl trivial

end Calls

/-! ## The invariant -/

/-- The future `n` that the command `r` waits for under the number `q`. -/
structure Awaited (s : Session) (r : Request) (last : Option (Frame × ℕ)) (n : ℕ) (q : ℤ) :
    Prop where
  request : ∃ payload fr, last = some (fr, n) ∧ fr.sequence = q ∧ fr.major = r.channel.major ∧
    fr.minor = MinorCode.request.value ∧ fr.payload = payload
  future : ∃ f, s.futures[n]? = some f ∧ f.channel = r.channel ∧ f.seq = q ∧
    (f.state = .pending → (s.pendingOf r.channel).lookup q = some n)

/-- What is awaited stays so while the maps are the same. -/
theorem Awaited.congr {s s' : Session} {r : Request} {last : Option (Frame × ℕ)} {n : ℕ} {q : ℤ}
    (h : Awaited s r last n q) (hsame : SameMaps s s') : Awaited s' r last n q := by
  obtain ⟨hrequest, f, hf, hchannel, hseq, hpending⟩ := h
  refine ⟨hrequest, f, ?_, hchannel, hseq, fun hstate => ?_⟩
  · rw [hsame.futures, hf]
  · rw [hsame.pending, hpending hstate]

structure Inv (w : World) : Prop where
  lock : w.sess.commandLock.Wf
  waits : ∀ t, w.sess.commandLock.Waits t ↔ (w.tasks t).pc = .lockWait
  inside : ∀ t, t ∈ w.sess.commandLock.inside ↔ (w.tasks t).pc.InCommand
  registered : ∀ c q n, (w.sess.pendingOf c).lookup q = some n →
    ∃ f, w.sess.futures[n]? = some f ∧ f.channel = c ∧ f.seq = q
  awaited : ∀ t n q, (w.tasks t).pc = .awaiting n q →
    ∃ r, (w.tasks t).request = some r ∧ Awaited w.sess r (w.tasks t).lastRequest n q
  ok : ∀ t, (w.tasks t).pc = .finished .ok → ∃ fr n f rest,
    (w.tasks t).lastRequest = some (fr, n) ∧ w.sess.futures[n]? = some f ∧
      f.state = .result (replyOk :: rest)

/-- A new session meets the invariant. -/
theorem inv_new (panelId receiverId : ℤ) (key : Option Bytes) (now : ℚ) :
    Inv (World.new panelId receiverId key now) := by
  refine ⟨Lock.wf_empty, ?_, ?_, ?_, ?_, ?_⟩
  · intro t
    simp [World.new, Lock.Waits]
  · intro t
    simp [World.new, Pc.InCommand]
  · intro c q n h
    have hempty : ((World.new panelId receiverId key now).sess.pendingOf c) = ∅ := by
      cases c <;> rfl
    rw [hempty, AList.lookup_empty] at h
    cases h
  · rintro t n q ⟨⟩
  · rintro t ⟨⟩

/-! ## A segment keeps the invariant -/

/-- What is true when a task gets to run inside the lock. -/
structure Inside (w : World) (t : ℕ) (s : Session) (given : Option Bytes) : Prop where
  lock : s.commandLock.Wf
  self : t ∈ s.commandLock.inside
  waits : ∀ u, s.commandLock.Waits u ↔ w.sess.commandLock.Waits u ∧ u ≠ t
  inside : ∀ u, u ≠ t → (u ∈ s.commandLock.inside ↔ u ∈ w.sess.commandLock.inside)
  futures : s.futures = w.sess.futures
  pending : ∀ c q n, (s.pendingOf c).lookup q = some n → (w.sess.pendingOf c).lookup q = some n
  given : ∀ payload, given = some payload → ∃ n q f, (w.tasks t).pc = .awaiting n q ∧
    w.sess.futures[n]? = some f ∧ f.state = .result payload

section Segment

variable {env : Env} {w : World} {a : Action} {t : ℕ} {r : Request} {s : Session}
  {given : Option Bytes}

/-- What is pending after one request is taken out was pending before. -/
theorem unregister_lookup {c c' : Channel} {q q' : ℤ} {n : ℕ}
    (h : ((s.unregister c q).pendingOf c').lookup q' = some n) :
    (s.pendingOf c').lookup q' = some n := by
  unfold Session.unregister at h
  by_cases hc : c' = c
  · subst hc
    rw [Session.pendingOf_setPending] at h
    by_cases hq : q' = q
    · subst hq
      rw [AList.lookup_erase] at h
      cases h
    · rwa [AList.lookup_erase_ne hq] at h
  · rwa [Session.pendingOf_setPending_ne hc] at h

/-- The task that runs is inside the lock, and no other is. -/
theorem runs_inside (hinv : Inv w) (hruns : Runs w a t r s given) : Inside w t s given := by
  have hself (hpc : (w.tasks t).pc.InCommand) (lock : Lock ℕ) (hlock : lock = w.sess.commandLock) :
      lock.Wf ∧ t ∈ lock.inside ∧ ∀ u, lock.Waits u ↔ w.sess.commandLock.Waits u ∧ u ≠ t := by
    subst hlock
    refine ⟨hinv.lock, (hinv.inside t).mpr hpc, fun u => ⟨fun hu => ⟨hu, ?_⟩, And.left⟩⟩
    rintro rfl
    rw [(hinv.waits u).mp hu] at hpc
    exact hpc
  cases hruns with
  | called hpc hcheck hgot =>
      have hnew : ¬w.sess.commandLock.Waits t := by
        rw [hinv.waits t, hpc]
        exact Pc.noConfusion
      have hins := Lock.acquire_inside w.sess.commandLock t
      rw [hgot, if_pos rfl] at hins
      refine ⟨hinv.lock.acquire hnew, ?_, ?_, ?_, rfl, fun c q n h => by cases c <;> exact h, nofun⟩
      · rw [hins]
        exact List.mem_cons_self
      · intro u
        rw [Lock.waits_acquire, hgot]
        simp only [Bool.true_eq_false, false_and, or_false]
        refine ⟨fun hu => ⟨hu, ?_⟩, And.left⟩
        rintro rfl
        exact hnew hu
      · intro u hne
        rw [hins, List.mem_cons]
        simp [hne]
  | woken hpc hwoken =>
      refine ⟨hinv.lock.enter hwoken, ?_, fun u => Lock.waits_enter _ t u, ?_, rfl,
        fun c q n h => by cases c <;> exact h, nofun⟩
      · rw [Lock.enter_inside]
        exact List.mem_cons_self
      · intro u hne
        rw [Lock.enter_inside, List.mem_cons]
        simp [hne]
  | slept hpc =>
      obtain ⟨hwf, hin, hwaits⟩ := hself (by rw [hpc]; trivial) _ rfl
      exact ⟨hwf, hin, hwaits, fun _ _ => Iff.rfl, rfl, fun c q n h => h, nofun⟩
  | @answered t r n q hpc hreq =>
      have hlock : (w.sess.unregister r.channel q).commandLock = w.sess.commandLock := by
        cases hc : r.channel <;> rfl
      obtain ⟨hwf, hin, hwaits⟩ := hself (by rw [hpc]; trivial) _ hlock
      refine ⟨hwf, hin, hwaits, fun u _ => by rw [hlock], ?_, fun c q' n' h => unregister_lookup h,
        ?_⟩
      · cases hc : r.channel <;> rfl
      · intro payload hgiven
        obtain ⟨f, hf, hstate⟩ := payloadOf_eq_some hgiven
        exact ⟨n, q, f, hpc, hf, hstate⟩

/-- No other task waits for a future while one runs inside the lock. -/
theorem Inside.alone (hinv : Inv w) (hins : Inside w t s given) {u : ℕ} (hne : u ≠ t) :
    ¬(w.tasks u).pc.InCommand := by
  intro hpc
  have hu := (hins.inside u hne).mpr ((hinv.inside u).mpr hpc)
  exact hne (hins.lock.inside_unique hu hins.self)

/-- The lock after a segment. -/
theorem settle_lock (w : World) (t : ℕ) (seg : Segment) (hwf : seg.1.commandLock.Wf)
    (hself : t ∈ seg.1.commandLock.inside)
    (hpc : seg.2.pc.InCommand ∨ ∃ o, seg.2.pc = .finished o) :
    (w.settle t seg).sess.commandLock.Wf ∧
    (∀ u, (w.settle t seg).sess.commandLock.Waits u ↔ seg.1.commandLock.Waits u) ∧
    ∀ u, u ∈ (w.settle t seg).sess.commandLock.inside ↔
      u ∈ seg.1.commandLock.inside ∧ (u = t → seg.2.pc.InCommand) := by
  obtain ⟨s, task⟩ := seg
  unfold World.settle
  dsimp only at *
  cases hcase : task.pc with
  | finished o =>
      dsimp only
      refine ⟨hwf.release hself, fun u => Lock.waits_release _ t u, fun u => ?_⟩
      rw [hwf.mem_release]
      rfl
  | idle => simp [hcase, Pc.InCommand] at hpc
  | lockWait => simp [hcase, Pc.InCommand] at hpc
  | quiet => exact ⟨hwf, fun u => Iff.rfl, fun u => by simp [Pc.InCommand]⟩
  | awaiting n q => exact ⟨hwf, fun u => Iff.rfl, fun u => by simp [Pc.InCommand]⟩

/-- Releasing the lock changes neither futures nor dictionaries. -/
theorem settle_same (w : World) (t : ℕ) (seg : Segment) : SameMaps seg.1 (w.settle t seg).sess := by
  obtain ⟨s, task⟩ := seg
  unfold World.settle
  dsimp only
  split
  · exact ⟨rfl, fun c => by cases c <;> rfl⟩
  · exact .refl s

/-- A segment leaves the other tasks as they are. -/
theorem settle_task (w : World) (t : ℕ) (seg : Segment) (u : ℕ) :
    (w.settle t seg).tasks u = if u = t then seg.2 else w.tasks u :=
  Function.update_apply w.tasks t seg.2 u

section Ends

variable {now : ℚ} {s' : Session} {pc : Pc} {last last' : Option (Frame × ℕ)}

/-- Futures that are there stay there. -/
theorem Ends.keeps (h : Ends env now s r given last s' pc last') {n : ℕ} {f : Future}
    (hf : s.futures[n]? = some f) : s'.futures[n]? = some f := by
  obtain ⟨-, ⟨hsame, -⟩ | ⟨hreg, -⟩⟩ := ends_maps h
  · rw [hsame.futures, hf]
  · rw [hreg.futures, List.getElem?_append_left (List.getElem?_eq_some_iff.mp hf).1, hf]

/-- The entries of the dictionaries, with the one that the segment has made. -/
theorem Inside.registered (hinv : Inv w) (hins : Inside w t s given)
    (h : Ends env now s r given last s' pc last') {c : Channel} {q : ℤ} {n : ℕ}
    (hlookup : (s'.pendingOf c).lookup q = some n) :
    ∃ f, s'.futures[n]? = some f ∧ f.channel = c ∧ f.seq = q := by
  have hold {c : Channel} {q : ℤ} (hlookup : (s.pendingOf c).lookup q = some n) :
      ∃ f, s'.futures[n]? = some f ∧ f.channel = c ∧ f.seq = q := by
    obtain ⟨f, hf, hfc⟩ := hinv.registered c q n (hins.pending c q n hlookup)
    rw [← hins.futures] at hf
    exact ⟨f, h.keeps hf, hfc⟩
  obtain ⟨-, ⟨hsame, -⟩ | ⟨hreg, -⟩⟩ := ends_maps h
  · rw [hsame.pending] at hlookup
    exact hold hlookup
  · by_cases hc : c = r.channel
    · subst hc
      rw [hreg.pending] at hlookup
      by_cases hq : q = s.allocSeq.2
      · subst hq
        rw [AList.lookup_insert, Option.some.injEq] at hlookup
        refine ⟨⟨.pending, r.channel, s.allocSeq.2⟩, ?_, rfl, rfl⟩
        rw [hreg.futures, ← hlookup, List.getElem?_concat_length]
      · rw [AList.lookup_insert_ne hq] at hlookup
        exact hold hlookup
    · rw [hreg.other c hc] at hlookup
      exact hold hlookup

/-- A segment that ends in a wait waits for the future that it has made. -/
theorem Ends.awaited (h : Ends env now s r given last s' pc last') {n : ℕ} {q : ℤ}
    (hpc : pc = .awaiting n q) : Awaited s' r last' n q := by
  obtain ⟨-, ⟨-, -, h | ⟨o, h, -⟩⟩ | ⟨hreg, ⟨o, h, -⟩ | ⟨h, payload, hlast⟩⟩⟩ := ends_maps h
  · rw [h] at hpc
    cases hpc
  · rw [h] at hpc
    cases hpc
  · rw [h] at hpc
    cases hpc
  · rw [h] at hpc
    cases hpc
    refine ⟨⟨payload, _, hlast, rfl, rfl, rfl, rfl⟩,
      ⟨.pending, r.channel, s.allocSeq.2⟩, ?_, rfl, rfl, fun _ => ?_⟩
    · rw [hreg.futures, List.getElem?_concat_length]
    · rw [hreg.pending, AList.lookup_insert]

/-- A segment that ends the command with success was given the reply. -/
theorem Inside.ok (hinv : Inv w) (hins : Inside w t s given)
    (h : Ends env now s r given (w.tasks t).lastRequest s' pc last') (hpc : pc = .finished .ok) :
    ∃ fr n f rest, last' = some (fr, n) ∧ s'.futures[n]? = some f ∧
      f.state = .result (replyOk :: rest) := by
  obtain ⟨-, ⟨-, hlast, hq | ⟨o, ho, hok⟩⟩ | ⟨-, ⟨o, ho, hno⟩ | ⟨hq, -⟩⟩⟩ := ends_maps h
  · rw [hq] at hpc
    cases hpc
  · rw [ho] at hpc
    cases hpc
    obtain ⟨rest, hrest⟩ := hok rfl
    obtain ⟨n, q, f, hpc', hf, hstate⟩ := hins.given _ hrest
    obtain ⟨r', -, ⟨payload, fr, hlast', -⟩, -⟩ := hinv.awaited t n q hpc'
    rw [← hins.futures] at hf
    exact ⟨fr, n, f, rest, hlast.trans hlast', h.keeps hf, hstate⟩
  · rw [ho] at hpc
    cases hpc
    exact absurd rfl hno
  · rw [hq] at hpc
    cases hpc

end Ends

/-- **A segment keeps the invariant.** -/
theorem inv_segment {seg : Segment} (hinv : Inv w) (hruns : Runs w a t r s given)
    (hseg : SegmentEnd env w.now s r given (w.tasks t).lastRequest seg) : Inv (w.settle t seg) := by
  have hins := runs_inside hinv hruns
  obtain ⟨hreq, hends⟩ := hseg
  obtain ⟨hlock, -⟩ := ends_maps hends
  have hpc := hends.pc_cases
  obtain ⟨hwf', hwaits', hinside'⟩ :=
    settle_lock w t seg (hlock ▸ hins.lock) (hlock ▸ hins.self) hpc
  have hsame' := settle_same w t seg
  have hother (u : ℕ) (hne : u ≠ t) : (w.settle t seg).tasks u = w.tasks u := by
    rw [settle_task, if_neg hne]
  have hself : (w.settle t seg).tasks t = seg.2 := by rw [settle_task, if_pos rfl]
  refine ⟨hwf', ?_, ?_, ?_, ?_, ?_⟩
  · intro u
    rw [hwaits', hlock, hins.waits u, hinv.waits u]
    by_cases hu : u = t
    · subst hu
      rw [hself]
      obtain hpc | ⟨o, ho⟩ := hpc
      · cases hcase : seg.2.pc <;> simp_all [Pc.InCommand]
      · simp [ho]
    · rw [hother u hu]
      simp [hu]
  · intro u
    rw [hinside', hlock]
    by_cases hu : u = t
    · subst hu
      rw [hself]
      simp [hins.self]
    · rw [hother u hu, hins.inside u hu, hinv.inside u]
      simp [hu]
  · intro c q n hlookup
    rw [hsame'.pending] at hlookup
    rw [hsame'.futures]
    exact hins.registered hinv hends hlookup
  · intro u n q hu
    by_cases hne : u = t
    · subst hne
      rw [hself] at hu ⊢
      exact ⟨r, hreq, (hends.awaited hu).congr hsame'⟩
    · rw [hother u hne] at hu
      exact absurd (by rw [hu]; trivial) (hins.alone hinv hne)
  · intro u hu
    rw [hsame'.futures]
    by_cases hne : u = t
    · subst hne
      rw [hself] at hu ⊢
      exact hins.ok hinv hends hu
    · rw [hother u hne] at hu ⊢
      obtain ⟨fr, n, f, rest, hlast, hf, hstate⟩ := hinv.ok u hu
      rw [← hins.futures] at hf
      exact ⟨fr, n, f, rest, hlast, hends.keeps hf, hstate⟩

end Segment

/-! ## The other actions keep the invariant -/

/-- A step that leaves the lock alone and only settles futures: a future that is not
pending stays as it is, and one that stays pending keeps its registration. -/
structure Settles (s s' : Session) : Prop where
  lock : s'.commandLock = s.commandLock
  futures : ∀ n f, s.futures[n]? = some f → ∃ f', s'.futures[n]? = some f' ∧
    f'.channel = f.channel ∧ f'.seq = f.seq ∧ (f.state ≠ .pending → f' = f) ∧
    (f'.state = .pending → ∀ c q, (s.pendingOf c).lookup q = some n →
      (s'.pendingOf c).lookup q = some n)
  pending : ∀ c q n, (s'.pendingOf c).lookup q = some n → (s.pendingOf c).lookup q = some n

/-- A step that leaves the maps and the lock settles at most. -/
theorem SameMaps.settles {s s' : Session} (h : SameMaps s s')
    (hlock : s'.commandLock = s.commandLock) : Settles s s' := by
  refine ⟨hlock, ?_, fun c q n hl => by rwa [h.pending] at hl⟩
  intro n f hf
  exact ⟨f, by rw [h.futures, hf], rfl, rfl, fun _ => rfl, fun _ c q hl => by rwa [h.pending]⟩

/-- Completing one future, whose registration may go. -/
theorem settles_complete {s s' : Session} {n : ℕ} {outcome : FutureState}
    (hlock : s'.commandLock = s.commandLock) (hne : outcome ≠ .pending)
    (hfutures : s'.futures = complete s.futures n outcome)
    (hpending : ∀ c q m, (s'.pendingOf c).lookup q = some m → (s.pendingOf c).lookup q = some m)
    (hkeep : ∀ c q m, m ≠ n → (s.pendingOf c).lookup q = some m →
      (s'.pendingOf c).lookup q = some m) : Settles s s' := by
  refine ⟨hlock, ?_, hpending⟩
  intro m f hf
  rw [hfutures, complete_getElem?, hf, Option.map_some]
  by_cases hm : m = n ∧ f.state = .pending
  · rw [if_pos hm]
    exact ⟨_, rfl, rfl, rfl, fun h => absurd hm.2 h, fun h => absurd h hne⟩
  · rw [if_neg hm]
    refine ⟨f, rfl, rfl, rfl, fun _ => rfl, fun hstate c q hl => hkeep c q m ?_ hl⟩
    rintro rfl
    exact hm ⟨rfl, hstate⟩

/-- A frame that is dispatched only settles futures. -/
theorem settles_dispatch (aes : AesEcb) (s : Session) (now : ℚ) (f : Frame) :
    Settles s (s.dispatch aes now f).1 := by
  obtain ⟨hlock, hsame | ⟨c, n, -, hlookup, hfutures, herase, hother⟩⟩ :=
    dispatch_maps aes s now f
  · exact hsame.settles hlock
  · refine settles_complete hlock (by rintro ⟨⟩) hfutures ?_ ?_
    · intro c' q m hl
      by_cases hc : c' = c
      · subst hc
        rw [herase] at hl
        by_cases hq : q = f.sequence
        · subst hq
          rw [AList.lookup_erase] at hl
          cases hl
        · rwa [AList.lookup_erase_ne hq] at hl
      · rwa [hother c' hc] at hl
    · intro c' q m hm hl
      by_cases hc : c' = c
      · subst hc
        by_cases hq : q = f.sequence
        · subst hq
          rw [hlookup, Option.some.injEq] at hl
          exact absurd hl.symm hm
        · rwa [herase, AList.lookup_erase_ne hq]
      · rwa [hother c' hc]

/-- Failing the pending requests only settles futures. -/
theorem settles_failPending (s : Session) (e : SpcError) : Settles s (s.failPending e) := by
  refine ⟨rfl, ?_, ?_⟩
  · intro n f hf
    rw [Session.failPending_futures, hf, Option.map_some]
    by_cases hn : (n ∈ s.pendingXml.values ∨ n ∈ s.pendingBin.values) ∧ f.state = .pending
    · rw [if_pos hn]
      exact ⟨_, rfl, rfl, rfl, fun h => absurd hn.2 h, nofun⟩
    · rw [if_neg hn]
      refine ⟨f, rfl, rfl, rfl, fun _ => rfl, fun hstate c q hl => absurd ⟨?_, hstate⟩ hn⟩
      cases c with
      | xml => exact .inl (mem_values_iff.mpr ⟨q, hl⟩)
      | bin => exact .inr (mem_values_iff.mpr ⟨q, hl⟩)
  · intro c q n hl
    rw [Session.failPending_pendingOf, AList.lookup_empty] at hl
    cases hl

/-- **Settling futures keeps the invariant**, when no task moves. -/
theorem inv_settles {w w' : World} (hinv : Inv w) (hsettles : Settles w.sess w'.sess)
    (htasks : ∀ t, (w'.tasks t).pc = (w.tasks t).pc ∧
      (w'.tasks t).request = (w.tasks t).request ∧
      (w'.tasks t).lastRequest = (w.tasks t).lastRequest) : Inv w' := by
  obtain ⟨hlock, hfutures, hpending⟩ := hsettles
  refine ⟨hlock ▸ hinv.lock, ?_, ?_, ?_, ?_, ?_⟩
  · intro t
    rw [hlock, (htasks t).1]
    exact hinv.waits t
  · intro t
    rw [hlock, (htasks t).1]
    exact hinv.inside t
  · intro c q n hl
    obtain ⟨f, hf, hc, hq⟩ := hinv.registered c q n (hpending c q n hl)
    obtain ⟨f', hf', hc', hq', -⟩ := hfutures n f hf
    exact ⟨f', hf', hc'.trans hc, hq'.trans hq⟩
  · intro t n q hpc
    obtain ⟨hpc', hreq', hlast'⟩ := htasks t
    rw [hpc'] at hpc
    obtain ⟨r, hreq, hrequest, f, hf, hc, hq, hreg⟩ := hinv.awaited t n q hpc
    obtain ⟨f', hf', hc', hq', hsame, hkeep⟩ := hfutures n f hf
    refine ⟨r, hreq'.trans hreq, by rwa [hlast'], f', hf', hc'.trans hc, hq'.trans hq, ?_⟩
    intro hstate
    refine hkeep hstate r.channel q (hreg ?_)
    by_contra hne
    rw [hsame hne] at hstate
    exact hne hstate
  · intro t hpc
    obtain ⟨hpc', -, hlast'⟩ := htasks t
    rw [hpc'] at hpc
    obtain ⟨fr, n, f, rest, hlast, hf, hstate⟩ := hinv.ok t hpc
    obtain ⟨f', hf', -, -, hsame, -⟩ := hfutures n f hf
    have hf'' := hsame (by rw [hstate]; exact FutureState.noConfusion)
    exact ⟨fr, n, f', rest, hlast'.trans hlast, hf', by rw [hf'', hstate]⟩

/-- Moving one task that is outside the lock before and after keeps the invariant. -/
theorem inv_move {w w' : World} {t : ℕ} (hinv : Inv w) (hsame : SameMaps w.sess w'.sess)
    (hwf : w'.sess.commandLock.Wf)
    (hinside : ∀ u, u ∈ w'.sess.commandLock.inside ↔ u ∈ w.sess.commandLock.inside)
    (hwaits : ∀ u, w'.sess.commandLock.Waits u ↔ (w'.tasks u).pc = .lockWait)
    (hother : ∀ u, u ≠ t → w'.tasks u = w.tasks u) (hout : ¬(w.tasks t).pc.InCommand)
    (hout' : ¬(w'.tasks t).pc.InCommand) (hok : (w'.tasks t).pc ≠ .finished .ok) : Inv w' := by
  refine ⟨hwf, hwaits, ?_, ?_, ?_, ?_⟩
  · intro u
    rw [hinside u, hinv.inside u]
    by_cases hu : u = t
    · subst hu
      simp [hout, hout']
    · rw [hother u hu]
  · intro c q n hl
    rw [hsame.pending] at hl
    rw [hsame.futures]
    exact hinv.registered c q n hl
  · intro u n q hpc
    by_cases hu : u = t
    · subst hu
      exact absurd (by rw [hpc]; trivial) hout'
    · rw [hother u hu] at hpc ⊢
      obtain ⟨r, hreq, hrequest, f, hf, hc, hq, hreg⟩ := hinv.awaited u n q hpc
      exact ⟨r, hreq, hrequest, f, by rw [hsame.futures, hf], hc, hq,
        fun h => by rw [hsame.pending]; exact hreg h⟩
  · intro u hpc
    by_cases hu : u = t
    · subst hu
      exact absurd hpc hok
    · rw [hother u hu] at hpc ⊢
      rw [hsame.futures]
      exact hinv.ok u hpc

/-- A session whose lock alone has changed. -/
theorem sameMaps_lock (s : Session) (lock : Lock ℕ) : SameMaps s { s with commandLock := lock } :=
  ⟨rfl, fun c => by cases c <;> rfl⟩

/-- Cancelling what a task waits for keeps the invariant. -/
theorem inv_interrupt {w : World} {t : ℕ} {task : Task} (hinv : Inv w)
    (hpc : task.pc = (w.tasks t).pc) (hreq : task.request = (w.tasks t).request)
    (hlast : task.lastRequest = (w.tasks t).lastRequest) :
    Inv { w with sess := w.interrupt t, tasks := Function.update w.tasks t task } := by
  set w' : World :=
    { w with sess := w.interrupt t, tasks := Function.update w.tasks t task } with hw'
  have htasks : ∀ u, (w'.tasks u).pc = (w.tasks u).pc ∧
      (w'.tasks u).request = (w.tasks u).request ∧
      (w'.tasks u).lastRequest = (w.tasks u).lastRequest := by
    intro u
    have happly : w'.tasks u = if u = t then task else w.tasks u :=
      Function.update_apply w.tasks t task u
    rw [happly]
    by_cases hu : u = t
    · subst hu
      rw [if_pos rfl]
      exact ⟨hpc, hreq, hlast⟩
    · rw [if_neg hu]
      exact ⟨rfl, rfl, rfl⟩
  cases hcase : (w.tasks t).pc with
  | lockWait =>
      have hsess : w'.sess = { w.sess with commandLock := w.sess.commandLock.cancel t } := by
        simp [hw', World.interrupt, hcase]
      have hsame : SameMaps w.sess w'.sess := hsess ▸ sameMaps_lock _ _
      refine ⟨?_, ?_, ?_, ?_, ?_, ?_⟩
      · rw [hsess]
        exact hinv.lock.cancel
      · intro u
        rw [(htasks u).1, hsess]
        exact (Lock.waits_cancel _ t u).trans (hinv.waits u)
      · intro u
        rw [(htasks u).1, hsess]
        exact hinv.inside u
      · intro c q n hl
        rw [hsame.pending] at hl
        rw [hsame.futures]
        exact hinv.registered c q n hl
      · intro u n q hu
        obtain ⟨hpc', hreq', hlast'⟩ := htasks u
        rw [hpc'] at hu
        obtain ⟨r, hr, hrequest, f, hf, hc, hq, hreg⟩ := hinv.awaited u n q hu
        exact ⟨r, hreq'.trans hr, by rwa [hlast'], f, by rw [hsame.futures, hf], hc, hq,
          fun h => by rw [hsame.pending]; exact hreg h⟩
      · intro u hu
        obtain ⟨hpc', -, hlast'⟩ := htasks u
        rw [hpc'] at hu
        rw [hlast', hsame.futures]
        exact hinv.ok u hu
  | awaiting n q =>
      have hsess : w'.sess = { w.sess with futures := complete w.sess.futures n .cancelled } := by
        simp [hw', World.interrupt, hcase]
      refine inv_settles hinv (settles_complete (n := n) (by rw [hsess])
        (FutureState.noConfusion : FutureState.cancelled ≠ .pending) (by rw [hsess]) ?_ ?_) htasks
      · intro c q m hl
        rw [hsess] at hl
        cases c <;> exact hl
      · intro c q m _ hl
        rw [hsess]
        cases c <;> exact hl
  | _ =>
      have hsess : w'.sess = w.sess := by simp [hw', World.interrupt, hcase]
      exact inv_settles hinv (hsess ▸ (SameMaps.refl _).settles rfl) htasks

/-- **Every action keeps the invariant.** -/
theorem inv_step {env : Env} {w w' : World} {a : Action} (hinv : Inv w)
    (hstep : w.step env a = some w') : Inv w' := by
  have hstay {w₁ : World} (hlock : w₁.sess.commandLock = w.sess.commandLock)
      (hsame : SameMaps w.sess w₁.sess) (htasks : w₁.tasks = w.tasks) : Inv w₁ :=
    inv_settles hinv (hsame.settles hlock) fun t => by rw [htasks]; exact ⟨rfl, rfl, rfl⟩
  cases step_change hstep with
  | segment hruns hseg => exact inv_segment hinv hruns hseg
  | @refused t cmd hpc =>
      refine inv_move (t := t) hinv (.refl _) hinv.lock (fun _ => Iff.rfl) ?_
        (fun u hu => Function.update_of_ne hu _ _) (by rw [hpc]; exact id) ?_ ?_
      · intro u
        dsimp only
        rw [hinv.waits u, Function.update_apply]
        by_cases hu : u = t
        · subst hu
          simp [hpc]
        · rw [if_neg hu]
      · dsimp only
        rw [Function.update_self]
        exact id
      · dsimp only
        rw [Function.update_self]
        exact nofun
  | @enqueued t cmd task hpc hgot htask =>
      have hnew : ¬w.sess.commandLock.Waits t := by
        rw [hinv.waits t, hpc]
        exact Pc.noConfusion
      refine inv_move (t := t) hinv (sameMaps_lock _ _) (hinv.lock.acquire hnew) ?_ ?_
        (fun u hu => Function.update_of_ne hu _ _) (by rw [hpc]; exact id) ?_ ?_
      · intro u
        dsimp only
        rw [Lock.acquire_inside, hgot]
        simp
      · intro u
        dsimp only
        rw [Lock.waits_acquire, hgot, hinv.waits u, Function.update_apply]
        by_cases hu : u = t
        · subst hu
          simp [htask]
        · simp [hu]
      · dsimp only
        rw [Function.update_self, htask]
        exact id
      · dsimp only
        rw [Function.update_self, htask]
        exact nofun
  | @gaveUp t hpc =>
      refine inv_move (t := t) hinv (sameMaps_lock _ _) (hinv.lock.giveUp t) ?_ ?_
        (fun u hu => Function.update_of_ne hu _ _) (by rw [hpc]; exact id) ?_ ?_
      · intro u
        dsimp only
        rw [Lock.giveUp_inside]
      · intro u
        dsimp only
        rw [Lock.waits_giveUp, hinv.waits u, Function.update_apply]
        by_cases hu : u = t
        · subst hu
          simp
        · simp [hu]
      · dsimp only
        rw [Function.update_self]
        exact id
      · dsimp only
        rw [Function.update_self]
        exact nofun
  | interrupted _ hpc hreq hlast => exact inv_interrupt hinv hpc hreq hlast
  | dispatched =>
      exact inv_settles hinv (settles_dispatch env.aes w.sess w.now _) fun _ => ⟨rfl, rfl, rfl⟩
  | ticked _ => exact hstay rfl ⟨rfl, fun c => by cases c <;> rfl⟩ rfl
  | failed => exact inv_settles hinv (settles_failPending _ _) fun _ => ⟨rfl, rfl, rfl⟩
  | closing => exact hstay rfl ⟨rfl, fun c => by cases c <;> rfl⟩ rfl
  | tornDown =>
      have hfail : Inv { w with sess := w.sess.failPending .panelDisconnected } :=
        inv_settles hinv (settles_failPending _ _) fun _ => ⟨rfl, rfl, rfl⟩
      exact inv_settles hfail (SameMaps.settles ⟨rfl, fun c => by cases c <;> rfl⟩ rfl)
        fun _ => ⟨rfl, rfl, rfl⟩
  | wrote _ => exact hstay rfl ⟨rfl, fun c => by cases c <;> rfl⟩ rfl

/-- A task that runs has not ended. -/
theorem Runs.not_finished {w : World} {a : Action} {t : ℕ} {r : Request} {s : Session}
    {given : Option Bytes} (h : Runs w a t r s given) (o : Outcome) :
    (w.tasks t).pc ≠ .finished o := by
  cases h <;> simp_all

/-- **A command never starts again**: inside the lock it stays there or ends, and it ends once. -/
theorem step_pc {env : Env} {w w' : World} {a : Action} (hstep : w.step env a = some w') (t : ℕ) :
    ((w.tasks t).pc.InCommand → (w'.tasks t).pc.InCommand ∨ ∃ o, (w'.tasks t).pc = .finished o) ∧
    ∀ o, (w.tasks t).pc = .finished o → (w'.tasks t).pc = .finished o := by
  have hsame {w₁ : World} (h : (w₁.tasks t).pc = (w.tasks t).pc) :
      ((w.tasks t).pc.InCommand → (w₁.tasks t).pc.InCommand ∨ ∃ o, (w₁.tasks t).pc = .finished o) ∧
      ∀ o, (w.tasks t).pc = .finished o → (w₁.tasks t).pc = .finished o := by
    rw [h]
    exact ⟨.inl, fun _ ho => ho⟩
  -- a task that moves was not at its end
  have hmove {u : ℕ} {task : Task} (hopen : ∀ o, (w.tasks u).pc ≠ .finished o)
      (hpc : (w.tasks u).pc.InCommand → task.pc.InCommand ∨ ∃ o, task.pc = .finished o) :
      ((w.tasks t).pc.InCommand → (Function.update w.tasks u task t).pc.InCommand ∨
        ∃ o, (Function.update w.tasks u task t).pc = .finished o) ∧
      ∀ o, (w.tasks t).pc = .finished o → (Function.update w.tasks u task t).pc = .finished o := by
    by_cases ht : t = u
    · subst ht
      rw [Function.update_self]
      exact ⟨hpc, fun o ho => absurd ho (hopen o)⟩
    · rw [Function.update_of_ne ht]
      exact ⟨.inl, fun _ ho => ho⟩
  cases step_change hstep with
  | segment hruns hseg => exact hmove hruns.not_finished fun _ => hseg.ends.pc_cases
  | refused hpc => exact hmove (by simp [hpc]) (by simp [hpc, Pc.InCommand])
  | enqueued hpc hgot htask => exact hmove (by simp [hpc]) (by simp [hpc, Pc.InCommand])
  | gaveUp hpc => exact hmove (by simp [hpc]) (by simp [hpc, Pc.InCommand])
  | @interrupted a u task _ hpc =>
      apply hsame
      dsimp only
      by_cases ht : t = u
      · subst ht
        rw [Function.update_self, hpc]
      · rw [Function.update_of_ne ht]
  | dispatched => exact hsame rfl
  | ticked _ => exact hsame rfl
  | failed => exact hsame rfl
  | closing => exact hsame rfl
  | tornDown => exact hsame rfl
  | wrote _ => exact hsame rfl

/-- The worlds that can come up: a new session, and then any actions. -/
def World.Occurs (env : Env) (w : World) : Prop :=
  ∃ panelId receiverId key now, Reachable (World.step env) (World.new panelId receiverId key now) w

/-- **The invariant holds throughout.** -/
theorem inv_occurs {env : Env} {w : World} (h : w.Occurs env) : Inv w := by
  obtain ⟨panelId, receiverId, key, now, hreach⟩ := h
  exact hreach.invariant (fun _ _ _ => inv_step) (inv_new panelId receiverId key now)

/-! ## An armed area -/

/-- A panel without a key, and any replies. -/
def clearEnv : Env where
  aes := Lib.BlockCipher.ecb fun _ => 1
  expat := fun _ => .expatError

/-- The future and the number that a task waits for. -/
def Pc.awaited : Pc → Option (ℕ × ℤ)
  | awaiting n q => some (n, q)
  | _ => none

/-- A task that awaits a future is in the `await` of its reply. -/
theorem Pc.eq_of_awaited {pc : Pc} {n : ℕ} {q : ℤ} (h : pc.awaited = some (n, q)) :
    pc = .awaiting n q := by
  cases pc <;> simp_all [awaited]

/-- A new session, and a command to arm area 1 that awaits its reply. -/
theorem occurs_areaSet : ∃ w : World, w.Occurs clearEnv ∧ (w.tasks 0).pc = .awaiting 0 1 := by
  obtain ⟨w, hstep, hpc⟩ : ∃ w,
      (World.new 1000 1001 none 1).step clearEnv (.call 0 (.binary 1 1 5)) = some w ∧
        (w.tasks 0).pc.awaited = some (0, 1) := ⟨_, rfl, by decide +kernel⟩
  exact ⟨w, ⟨1000, 1001, none, 1, Reachable.refl.snoc hstep⟩, Pc.eq_of_awaited hpc⟩

end Spcedp.Client
