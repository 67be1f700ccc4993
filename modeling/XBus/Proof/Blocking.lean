import XBus.Proof.AtMostOnce
import XBus.Proof.Walks

/-!
# Blocked peers

A session blocks a peer by an alias, and `send` looks the sender up in the recipient's list. It
looks under one alias, the one `aliasForSession` chooses: the alphabetically first of the chosen
ones, or else the automatic one, and never the session name. A peer that is blocked under another
alias of its own gets through, and so does one that registers a further alias after it was blocked.
`reply` does not look at all.

`blocked_peers_post_nothing` is what is left: where the list has the chosen alias whenever it has
any, and nobody replies to a session that blocks it, no blocked peer posts anything.
-/

set_option autoImplicit false

namespace XBus
namespace Proof

open Lib

variable {env : Env} {b b' : Broker}

/-! ## Who is blocked -/

/-- The session is addressed by the alias: it holds it actively, or it is its active name. -/
def GoesBy (b : Broker) (sid : SessionId) (ci : String) : Prop :=
  (∃ a ∈ b.aliases, a.sessionId = sid ∧ a.active = true ∧ a.ci = ci) ∨
    ∃ s ∈ b.sessions, s.sessionId = sid ∧ s.sessionNameState = .active ∧
      s.normalizedSessionName = some ci

instance (b : Broker) (sid : SessionId) (ci : String) : Decidable (GoesBy b sid ci) :=
  inferInstanceAs (Decidable (_ ∨ _))

/-- The owner blocks an alias the peer goes by. -/
def BlocksPeer (b : Broker) (owner peer : SessionId) : Prop :=
  ∃ p ∈ b.blockedPeers, p.ownerSessionId = owner ∧ GoesBy b peer p.blockedAliasCi

instance (b : Broker) (owner peer : SessionId) : Decidable (BlocksPeer b owner peer) :=
  inferInstanceAs (Decidable (∃ p ∈ b.blockedPeers, _))

/-! ## What blocked peers have posted -/

/-- The session whose `send` or `reply` this is. -/
def posterOf : Op → Option SessionId
  | .send auth _ => some auth.sessionId
  | .reply auth _ => some auth.sessionId
  | _ => none

/-- The messages a step has added that their recipient had blocked the poster of. -/
def intrusions (op : Op) (b b' : Broker) : List Message :=
  (b'.messages.drop b.messages.length).filter fun m =>
    (posterOf op).any fun s => BlocksPeer b m.recipientSessionId s

/-- Every such message so far. -/
def noteIntrusions (past : List Message) (b : Broker) (e : Event) (_ : Except Failure Response)
    (b' : Broker) : List Message :=
  past ++ intrusions e.1 b b'

/-- The step is one the block list is effective for: the recipient of a send blocks the sender under
    the alias that is looked up, if it blocks it at all, and the recipient of a reply does not block
    the replier. -/
def Covered (env : Env) (b : Broker) (e : Event) : Prop :=
  match e.1 with
  | .send auth input => ∀ r ∈ (resolveRecipient env b input.recipient).toOption,
      BlocksPeer b r.1 auth.sessionId →
        b.isBlocked env r.1 (env.text.toLowerCase (b.aliasForSession auth.sessionId)) = true
  | .reply auth input => ∀ orig ∈ b.message? input.messageId,
      ¬ BlocksPeer b orig.senderSessionId auth.sessionId
  | _ => True

instance (env : Env) (b : Broker) (e : Event) : Decidable (Covered env b e) := by
  unfold Covered
  split <;> infer_instance

theorem intrusions_of_same {op : Op} (h : b'.messages = b.messages) : intrusions op b b' = [] := by
  unfold intrusions
  rw [h, List.drop_length]
  rfl

/-- One new message, whose recipient does not block the poster. -/
theorem intrusions_of_posted {op : Op} {m : Message} {poster : SessionId}
    (hop : posterOf op = some poster) (h : b'.messages = b.messages ++ [m])
    (hopen : ¬ BlocksPeer b m.recipientSessionId poster) : intrusions op b b' = [] := by
  unfold intrusions
  rw [h, List.drop_left, hop]
  simp [hopen]

theorem send_covered {auth : SessionAuthority} {input : SendInput} {mom : Moment}
    (hok : Covered env b (.send auth input, mom)) :
    intrusions (.send auth input) b (send env mom.now auth input b).2 = [] := by
  rcases hsend : send env mom.now auth input b with ⟨f | r, b'⟩
  · -- Refused: the transaction has put everything back.
    have hback : b' = b := Call.transaction_error hsend
    rw [hback]
    exact intrusions_of_same rfl
  · rcases send_posts hsend with ⟨dup, -, -, rfl⟩ | ⟨-, m, hsent⟩
    · exact intrusions_of_same rfl
    · refine intrusions_of_posted rfl hsent.posted.messages fun hblocks => ?_
      have hlisted := hok (m.recipientSessionId, m.recipientAlias)
        (by rw [hsent.resolved]; rfl) hblocks
      rw [hsent.unblocked] at hlisted
      cases hlisted

theorem reply_covered {auth : SessionAuthority} {input : ReplyInput} {mom : Moment}
    (hok : Covered env b (.reply auth input, mom)) :
    intrusions (.reply auth input) b (reply env mom.now auth input b).2 = [] := by
  rcases hreply : reply env mom.now auth input b with ⟨f | r, b'⟩
  · exact intrusions_of_same (reply_refuses b f b' hreply).messages
  · obtain ⟨-, orig, horig, -, ⟨dup, -, -, -, rfl⟩ | hdone⟩ := reply_ok hreply
    · exact intrusions_of_same rfl
    · obtain ⟨b₁, row, hposted, -, -, -, -, hto, -, -, -, hmsgs, -⟩ := hdone.posted
      refine intrusions_of_posted rfl (hmsgs.trans hposted.messages) ?_
      rw [hto]
      exact hok orig horig

/-- One step adds nothing to the record. -/
theorem noteIntrusions_step {p : Broker × List Message} {e : Event} (hp : p.2 = [])
    (hok : Covered env p.1 e) : (recording (step env) noteIntrusions p e).2.2 = [] := by
  obtain ⟨op, mom⟩ := e
  have hstep : intrusions op p.1 (exec env mom op p.1).2 = [] := by
    cases hop : posterOf op with
    | none => simp [intrusions, hop]
    | some poster =>
      cases op with
      | send auth input =>
        simp only [exec, Call.map_snd]
        exact send_covered hok
      | reply auth input =>
        simp only [exec, Call.map_snd]
        exact reply_covered hok
      | _ => cases hop
  show p.2 ++ intrusions op p.1 (exec env mom op p.1).2 = []
  rw [hp, hstep]
  rfl

/-- **Blocking is effective** in every run whose sends and replies are covered: of all messages that
    sends and replies have posted, none went to a session that blocked its poster. -/
theorem blocked_peers_post_nothing {log : List (Event × Except Failure Response)}
    {p : Broker × List Message} (run : Run (recording (step env) noteIntrusions)
      (fun p e => Covered env p.1 e) (initial env, []) log p) : p.2 = [] :=
  run.invariant (P := fun p => p.2 = []) rfl fun _ _ hp hok => noteIntrusions_step hp hok

/-- `alpha` and `beta` are registered, and `beta` blocks `alpha`'s automatic alias. -/
def betaBlocksAlpha : List Event :=
  requestSent.take 3 ++
    [(.blockPeer (component "beta" .cli 1 2) "session-alpha" false, { nowMs := 1000 })]

/-- What `alpha` then sends. -/
def alphaSends : Event :=
  (.send (component "alpha" .mcp 1 1) { recipient := "beta-name", text := "please" },
    { nowMs := 1001 })

/-- The alias is the one `alpha` is looked up under, and its message is refused. -/
theorem blocked_alpha_refused :
    let run := runAll (recording (step plainEnv) noteIntrusions) (initial plainEnv, [])
      (betaBlocksAlpha ++ [alphaSends])
    run.2.1.messages = [] ∧ BlocksPeer run.2.1 "beta" "alpha" ∧ run.2.2 = [] := by
  intro run
  have hrun : run.2.1.messages = [] ∧ BlocksPeer run.2.1 "beta" "alpha" ∧
      Admitted (recording (step plainEnv) noteIntrusions) (fun p e => Covered plainEnv p.1 e)
        (initial plainEnv, []) (betaBlocksAlpha ++ [alphaSends]) := by decide +kernel
  exact ⟨hrun.1, hrun.2.1, blocked_peers_post_nothing (Run.of_runAll _ hrun.2.2)⟩

/-- `alpha` registers a further alias after it was blocked, and its message is taken. A session that
    blocks the one it has asked gets the reply. -/
theorem blocked_peer_gets_through :
    let system := recording (step plainEnv) noteIntrusions
    let renamed := runAll system (initial plainEnv, []) (betaBlocksAlpha ++
      [(.registerAlias (component "alpha" .mcp 1 1) "scout", { nowMs := 1000 }), alphaSends])
    let replied := runAll system (initial plainEnv, []) (requestPulled ++
      [(.blockPeer (component "alpha" .cli 1 1) "beta-name" false, { nowMs := 1002 }),
        (.reply (component "beta" .mcp 1 2)
        { messageId := 8, text := "done", outcome := .completed },
          { nowMs := 1003 })])
    Run system Any (initial plainEnv, []) renamed.1 renamed.2 ∧
      renamed.2.2.map (fun m => (m.senderSessionId, m.recipientSessionId)) = [("alpha", "beta")] ∧
      Run system Any (initial plainEnv, []) replied.1 replied.2 ∧
      replied.2.2.map (fun m => (m.senderSessionId, m.recipientSessionId)) =
        [("beta", "alpha")] := by
  intro system renamed replied
  refine ⟨Run.of_events system _ _, ?_, Run.of_events system _ _, ?_⟩
  · decide +kernel
  · decide +kernel

end Proof
end XBus
