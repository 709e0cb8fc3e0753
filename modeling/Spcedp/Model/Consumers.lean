import Spcedp.Model.EventStream
import Spcedp.Model.Handler

/-!
# Consumers of the event stream

A connection, and any number of iterators of the application over its one queue of events: those
in use at the same time, and those cancelled or closed before.
-/

set_option autoImplicit false

namespace Spcedp.Client

/-- A connection with its iterators, by number. -/
structure Consumers where
  handler : Handler
  generators : ℕ → Generator := fun _ => .finished .closed

inductive ConsumersAction
  /-- Anything that happens at the connection. -/
  | handler (a : HandlerAction)
  /-- A step of an iterator. -/
  | generator (i : ℕ) (a : StreamAction)

/-- What a consumer and the tasks of `__anext__` do. -/
def StreamAction.FromConsumer : StreamAction → Bool
  | .emitEvent _ | .requestTeardown => false
  | _ => true

section

variable (server : PanelServer) (env : Env)

/-- The panel has just connected, and nobody has asked for events. -/
def PanelServer.consumers (now : ℚ) : Consumers where
  handler := server.accept now

namespace Consumers

/-- The session with one of the generators. -/
def stream (c : Consumers) (i : ℕ) : Stream where
  sess := c.handler.sess
  generator := c.generators i

/-- One step. -/
def step (c : Consumers) : ConsumersAction → Option Consumers
  | .handler a => (c.handler.step server env a).map fun handler => { c with handler := handler }
  | .generator i a =>
      if a.FromConsumer then
        ((c.stream i).step a).map fun st =>
          { handler := c.handler.setSess st.sess
            generators := Function.update c.generators i st.generator }
      else none

end Consumers

end

end Spcedp.Client
