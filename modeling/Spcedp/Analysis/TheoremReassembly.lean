import Spcedp.Analysis.Progress
import Spcedp.Model.Panel

/-!
# A reply in any pieces

`reassembled`: a command gets the same parsed reply, however the panel cuts it into pieces,
and sends one request for each piece; with more than `MAX_XML_FRAGMENTS` pieces it gives up
after as many requests. The invariant of the exchange says so of a command that has ended, and
from every state of the exchange it can come to its end.
-/

set_option autoImplicit false

namespace Spcedp.Client

open Lib.Transition Spcedp.PyText Spcedp.Wire Spcedp.Xmlcmd

/-- What the command of task `t` has done in `w`, where it has ended. -/
structure Reassembled (body : Bytes) (reply : XmlReply) (pieces : List Bytes) (t : ℕ) (w : World) :
    Prop where
  few : pieces.length ≤ maxXmlFragments → (w.tasks t).pc = .finished (.reply reply) ∧
    requestsOf t w.sess.log = requestSeq body pieces.length
  many : maxXmlFragments < pieces.length →
    (∃ e, (w.tasks t).pc = .finished (.spcError e) ∧ e.cls = .spcProtocolError) ∧
    requestsOf t w.sess.log = requestSeq body maxXmlFragments

/-! ## The theorem -/

/-- **Fragmentation independence.** -/
theorem reassembled (env : Env) (panelId receiverId : ℤ) (key : Key) (now : ℚ) (commandId : Text)
    (timeout : ℚ) (b : Bytes) (reply : XmlReply) (pieces : List Bytes) (t : ℕ) (as : List Action)
    (w : World) (hascii : ∀ c ∈ commandId, c < 0x80)
    (hfits : (Request.xml commandId timeout []).Fits) (hsize : b.length ≤ maxReplyBytes)
    (htag : OnlyAtEnd closingTag b)
    (hparse : parseReply env.expat b = .ok reply) (hcut : Cut b pieces)
    (hrun : Conforms (World.step env) (Serves commandId timeout pieces t)
      (World.new panelId receiverId key.val now) as w) :
    ∃ body, (∀ continuation, buildRequest commandId continuation [] =
      .ok ((if continuation then fragCont else fragFirst) :: body)) ∧
    (∀ o, (w.tasks t).pc = .finished o → Reassembled body reply pieces t w) ∧
    ((w.tasks t).pc ≠ .idle → ∃ bs w',
      Conforms (World.step env) (Serves commandId timeout pieces t) w bs w' ∧
      Reassembled body reply pieces t w') := by
  obtain ⟨body, hbuilt⟩ := buildRequest_ascii hascii
  have hset : Setting env commandId body b reply pieces := by
    refine ⟨hbuilt, ?_, hcut, htag, hsize, hparse⟩
    apply hfits (fragFirst :: body)
    unfold Request.payload
    dsimp only
    rw [hbuilt]
    rfl
  have hserviced : Serviced key.val commandId timeout body reply pieces t w :=
    hrun.invariant (fun _ _ _ hw hstep hserves => serviced_step hset hw hstep hserves) serviced_new
  -- what the invariant says of a command that has ended
  have hended {w : World} {o : Outcome}
      (hw : Serviced key.val commandId timeout body reply pieces t w)
      (hend : (w.tasks t).pc = .finished o) : Reassembled body reply pieces t w := by
    cases hw.stage with
    | idle h => simp [hend] at h
    | lockWait h => simp [hend] at h
    | quiet h => simp [hend] at h
    | awaiting h => simp [hend] at h
    | finished h hsent =>
        unfold resultOf at h
        constructor
        · intro hfew
          rw [if_pos hfew] at h
          exact ⟨h, by rw [hsent, min_eq_left hfew]⟩
        · intro hmany
          rw [if_neg (not_le.mpr hmany)] at h
          exact ⟨⟨_, h, rfl⟩, by rw [hsent, min_eq_right hmany.le]⟩
  refine ⟨body, hbuilt, fun o hend => hended hserviced hend, fun hpc => ?_⟩
  obtain ⟨w', o, hleads, hend⟩ := leads_to_end hset hserviced hpc
  have hserviced' := hleads.serviced hset hserviced
  obtain ⟨bs, hconforms⟩ := hleads
  exact ⟨bs, w', hconforms, hended hserviced' hend⟩

/-! ## A reply that is cut inside the closing tag -/

/-- A panel without a key, whose replies have no content. -/
def leafEnv : Env where
  aes := clearEnv.aes
  expat _ := .document (.node (text "COMMAND_REPLY") [] [])

/-- A reply without content, cut three times. -/
def leafPieces : List Bytes :=
  ["<COMMAND_REPLY></COMMAND", "", "_REPLY", ">"].map fun s => (text s).map UInt8.ofNat

/-- The closing tag is at the end of the pieces only. -/
theorem leafPieces_onlyAtEnd : OnlyAtEnd closingTag leafPieces.flatten :=
  onlyAtEnd_of_dropLast (List.isSuffixOf_iff_suffix.mp (by decide +kernel)) (by decide +kernel)

/-- Four requests for four pieces. -/
theorem reassembled_leaf : ∃ as w body,
    Conforms (World.step leafEnv) (Serves xmlInfo 5 leafPieces 0)
      (World.new 1000 1001 none 1) as w ∧
    (w.tasks 0).pc = .finished (.reply []) ∧
    requestsOf 0 w.sess.log = [fragFirst :: body, fragCont :: body, fragCont :: body,
      fragCont :: body] := by
  have hobs : ((World.new 1000 1001 none 1).step leafEnv (.call 0 (.xml xmlInfo 5 []))).map
      (fun w => (w.sess.closed, (w.tasks 0).pc.awaited)) = some (false, some (0, 1)) := by
    decide +kernel
  obtain ⟨w₁, hstep, hw₁⟩ := Option.map_eq_some_iff.mp hobs
  rw [Prod.mk.injEq] at hw₁
  have hpc := Pc.eq_of_awaited hw₁.2
  have hcalled : Conforms (World.step leafEnv) (Serves xmlInfo 5 leafPieces 0)
      (World.new 1000 1001 none 1) [.call 0 (.xml xmlInfo 5 [])] w₁ :=
    .single hstep ⟨hw₁.1, fun cmd h => (Action.call.inj h).2.symm, nofun, nofun, nofun, nofun⟩
  have hfits : (Request.xml xmlInfo 5 []).Fits := by
    intro payload hpayload
    have hlen : ((Request.xml xmlInfo 5 []).payload false).toOption.map List.length = some 22 := by
      decide +kernel
    rw [hpayload] at hlen
    have hlen : payload.length = 22 := Option.some_inj.mp hlen
    omega
  obtain ⟨body, -, -, hends⟩ := reassembled leafEnv 1000 1001 .clear 1 xmlInfo 5
    leafPieces.flatten [] leafPieces 0 _ w₁ (by decide) hfits (by decide +kernel)
    leafPieces_onlyAtEnd rfl
    ⟨rfl, by decide⟩ hcalled
  obtain ⟨bs, w, hconforms, hfew, -⟩ := hends (by rw [hpc]; exact nofun)
  obtain ⟨hend, hsent⟩ := hfew (by decide)
  exact ⟨_, w, body, hcalled.trans hconforms, hend, hsent⟩

end Spcedp.Client
