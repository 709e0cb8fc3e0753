import Spcedp.Model.Link

/-!
# What a step of a link does

Frames come out of the panel by `MockPanel.write` only, and bytes come out of the handler by its
writer only. One case for each action (`Does`, `step_does`).
-/

set_option autoImplicit false

namespace Spcedp.Client

open Spcedp.Wire

namespace MockPanel

variable {aes : AesEcb} {p p' : MockPanel} {f : Frame} {data : Bytes}

/-- **A frame is written** when it can be encoded. -/
theorem write_cases (h : p.write aes f = some (p', data)) :
    ∃ g, f.encode aes p.key = .ok (data, g) ∧ p' = { p with sent := p.sent ++ [g] } := by
  unfold write at h
  split at h
  · rename_i data' g henc
    cases h
    exact ⟨g, henc, rfl⟩
  · cases h

end MockPanel

namespace Link

/-- The link when the panel has written `data` for the frame `g`. -/
def wrote (l : Link) (g : Frame) (data : Bytes) : Link :=
  { l with panel := { l.panel with sent := l.panel.sent ++ [g] }, toReceiver := l.toReceiver ++ data }

/-- The link after the handler has gone on to `h`. -/
def after (l : Link) (h : Handler) : Link :=
  { l with
    handler := h
    toPanel := l.toPanel ++ (h.written.drop l.handler.written.length).flatten }

/-- What a step does. -/
inductive Does (server : PanelServer) (env : Env) (l : Link) : LinkAction → Link → Prop
  | started {m payload sequence data g} :
      (l.panel.panelFrame m.major m.minor payload sequence).encode env.aes l.panel.key =
        .ok (data, g) →
      Does server env l (.start m payload sequence) (l.wrote g data)
  | replied {req payload data g} : req ∈ l.panel.inbound →
      (l.panel.panelFrame req.major (replyMinor req) payload req.sequence).encode env.aes
        l.panel.key = .ok (data, g) →
      Does server env l (.reply req payload) { l.wrote g data with
        panel := { (l.wrote g data).panel with replies := l.panel.replies ++ [(req, payload)] } }
  | arrived {n h} : n ≤ l.toReceiver.length →
      l.handler.step server env (.read (.data (l.toReceiver.take n))) = some h →
      Does server env l (.arrive n) { l.after h with toReceiver := l.toReceiver.drop n }
  | departed {n} : n ≤ l.toPanel.length →
      Does server env l (.depart n) { l with
        panel := l.panel.pump env.aes (l.toPanel.take n)
        toPanel := l.toPanel.drop n }
  | handled {a h} : a.BringsData = false → l.handler.step server env a = some h →
      Does server env l (.handler a) (l.after h)

variable {server : PanelServer} {env : Env} {l l' : Link} {a : LinkAction}

/-- A frame that the panel sends was encoded under its key. -/
theorem send_cases {f : Frame} (h : l.send env f = some l') :
    ∃ data g, f.encode env.aes l.panel.key = .ok (data, g) ∧ l' = l.wrote g data := by
  obtain ⟨⟨p, data⟩, hwrite, rfl⟩ := Option.map_eq_some_iff.mp h
  obtain ⟨g, henc, rfl⟩ := MockPanel.write_cases hwrite
  exact ⟨data, g, henc, rfl⟩

/-- A step of the link's receiver is one of its handler. -/
theorem handle_cases {a : HandlerAction} (h : l.handle server env a = some l') :
    ∃ h', l.handler.step server env a = some h' ∧ l' = l.after h' := by
  obtain ⟨h', hstep, rfl⟩ := Option.map_eq_some_iff.mp h
  exact ⟨h', hstep, rfl⟩

/-- **Every step is one of these.** -/
theorem step_does (hstep : l.step server env a = some l') : Does server env l a l' := by
  cases a with
  | start m payload sequence =>
      obtain ⟨data, g, henc, rfl⟩ := send_cases hstep
      exact .started henc
  | reply req payload =>
      simp only [step] at hstep
      split at hstep
      · rename_i hreq
        obtain ⟨l₁, hsend, rfl⟩ := Option.map_eq_some_iff.mp hstep
        obtain ⟨data, g, henc, rfl⟩ := send_cases hsend
        exact .replied hreq henc
      · cases hstep
  | arrive n =>
      simp only [step] at hstep
      split at hstep
      · rename_i hn
        obtain ⟨l₁, hhandle, rfl⟩ := Option.map_eq_some_iff.mp hstep
        obtain ⟨h, hh, rfl⟩ := handle_cases hhandle
        exact .arrived hn.2 hh
      · cases hstep
  | depart n =>
      simp only [step] at hstep
      split at hstep
      · rename_i hn
        cases hstep
        exact .departed hn.2.2
      · cases hstep
  | handler a =>
      simp only [step] at hstep
      split at hstep
      · cases hstep
      · rename_i hdata
        rw [Bool.not_eq_true] at hdata
        obtain ⟨h, hh, rfl⟩ := handle_cases hstep
        exact .handled hdata hh

end Link

end Spcedp.Client
