import XBus.SessionList
import XBus.Proof.Escalation
import XBus.Proof.Reports

/-!
# The two rollups of the console

A turn's word is `mapDeliveryState` of its delivery; a session's counts sum groups of states by
hand. The hand leaves out two of the ten states. One of them no delivery ever has. The other is
`cancelled`, and so **`rollups_agree_iff`**: the counts agree with the words, and add up, exactly as
long as no delivery to the session was cancelled.
-/

set_option autoImplicit false

namespace XBus
namespace Proof

open Lib

variable {env : Env} {u : Desk}

/-- Each count is the number of deliveries with its word, and together they are all deliveries. -/
structure RollupAgrees (b : Broker) (s : DashboardSession) : Prop where
  words : ∀ e ∈ s.delivery.entries,
    e.2 = (b.addressedTo s.sessionId).countP fun d => mapDeliveryState d.state = e.1
  total : (s.delivery.entries.map Prod.snd).sum = (b.addressedTo s.sessionId).length

/-- How many of the rows are in the given state. -/
def inState (rows : List Delivery) (state : DeliveryState) : Nat :=
  rows.countP fun d => d.state = state

/-- Of two conditions that exclude each other. -/
theorem countP_or {α : Type} {p q : α → Bool} (h : ∀ x, p x = true → q x = false) (xs : List α) :
    xs.countP (fun x => p x || q x) = xs.countP p + xs.countP q := by
  induction xs with
  | nil => rfl
  | cons x xs ih =>
    rw [List.countP_cons, List.countP_cons, List.countP_cons, ih]
    cases hp : p x with
    | true =>
      rw [h x hp]
      simp only [Bool.true_or, if_true, if_false, Bool.false_eq_true]
      omega
    | false =>
      simp only [Bool.false_or, if_false, Bool.false_eq_true]
      omega

theorem countP_states (rows : List Delivery) {states : List DeliveryState} (h : states.Nodup) :
    rows.countP (fun d => d.state ∈ states) = (states.map (inState rows)).sum := by
  induction states with
  | nil => simp
  | cons state states ih =>
    obtain ⟨hnot, hnodup⟩ := List.nodup_cons.mp h
    have hexcl : ∀ d : Delivery, decide (d.state = state) = true →
        decide (d.state ∈ states) = false := by
      intro d hd
      obtain rfl := of_decide_eq_true hd
      exact decide_eq_false hnot
    rw [List.map_cons, List.sum_cons, ← ih hnodup, inState, ← countP_or hexcl]
    exact List.countP_congr fun d _ => by simp

/-- The states that have the given word. -/
def statesOf (word : String) : List DeliveryState :=
  [.queued, .dispatching, .transportWritten, .accepted, .completed, .retryWait, .rejected,
    .expired, .deadLetter, .cancelled].filter fun state => mapDeliveryState state = word

theorem mem_statesOf {word : String} {state : DeliveryState} :
    state ∈ statesOf word ↔ mapDeliveryState state = word := by
  rw [statesOf, List.mem_filter, decide_eq_true_eq]
  exact and_iff_right (by cases state <;> decide)

theorem countP_word (rows : List Delivery) (word : String) :
    rows.countP (fun d => mapDeliveryState d.state = word) =
      ((statesOf word).map (inState rows)).sum := by
  have hnodup : (statesOf word).Nodup := List.Nodup.filter _ (by decide)
  rw [← countP_states rows hnodup]
  exact List.countP_congr fun d _ => by simp [mem_statesOf]

theorem inState_eq_zero {rows : List Delivery} {state : DeliveryState} :
    inState rows state = 0 ↔ ∀ d ∈ rows, d.state ≠ state := by
  simp [inState]

/-- The counts of a session with these deliveries. -/
def countsOf (rows : List Delivery) : DeliveryCounts :=
  { queued := inState rows .queued + inState rows .retryWait
    delivered := inState rows .transportWritten
    acknowledged := inState rows .accepted
    replied := inState rows .completed
    failed := inState rows .deadLetter + inState rows .rejected + inState rows .expired }

/-- Where nothing is `dispatching` four of the counts are always right, and the fifth leaves out
what was cancelled. -/
structure WordCounts (rows : List Delivery) : Prop where
  queued : (countsOf rows).queued = rows.countP fun d => mapDeliveryState d.state = "queued"
  delivered : (countsOf rows).delivered = rows.countP fun d =>
    mapDeliveryState d.state = "delivered"
  acknowledged : (countsOf rows).acknowledged =
    rows.countP fun d => mapDeliveryState d.state = "acknowledged"
  replied : (countsOf rows).replied = rows.countP fun d => mapDeliveryState d.state = "replied"
  failed : (countsOf rows).failed + inState rows .cancelled =
    rows.countP fun d => mapDeliveryState d.state = "failed"
  total : ((countsOf rows).entries.map Prod.snd).sum + inState rows .cancelled = rows.length

theorem wordCounts {rows : List Delivery} (h : ∀ d ∈ rows, d.state ≠ .dispatching) :
    WordCounts rows := by
  have hnone : inState rows .dispatching = 0 := inState_eq_zero.mpr h
  have hlength : rows.length = ([.queued, .dispatching, .transportWritten, .accepted, .completed,
      .retryWait, .rejected, .expired, .deadLetter, .cancelled].map (inState rows)).sum := by
    rw [← countP_states _ (by decide), eq_comm, List.countP_eq_length]
    intro d _
    cases d.state <;> rfl
  have hq : statesOf "queued" = [.queued, .dispatching, .retryWait] := by decide
  have hd : statesOf "delivered" = [.transportWritten] := by decide
  have ha : statesOf "acknowledged" = [.accepted] := by decide
  have hr : statesOf "replied" = [.completed] := by decide
  have hf : statesOf "failed" = [.rejected, .expired, .deadLetter, .cancelled] := by decide
  simp only [List.map_cons, List.map_nil, List.sum_cons, List.sum_nil] at hlength
  constructor
  · rw [countP_word, hq]
    simp only [List.map_cons, List.map_nil, List.sum_cons, List.sum_nil, countsOf]
    omega
  · rw [countP_word, hd]
    simp [countsOf]
  · rw [countP_word, ha]
    simp [countsOf]
  · rw [countP_word, hr]
    simp [countsOf]
  · rw [countP_word, hf]
    simp only [List.map_cons, List.map_nil, List.sum_cons, List.sum_nil, countsOf]
    omega
  · rw [hlength]
    simp only [DeliveryCounts.entries, List.map_cons, List.map_nil, List.sum_cons, List.sum_nil,
      countsOf]
    omega

/-- In every database the broker reaches, the counts of a listed session agree with the words of its
deliveries and add up to all of them if and only if none of them was cancelled. -/
theorem rollups_agree_iff (h : u.Reachable env Any) {s : DashboardSession}
    (hs : s ∈ u.db.dashboardSessions) :
    RollupAgrees u.db s ↔ ∀ d ∈ u.db.addressedTo s.sessionId, d.state ≠ .cancelled := by
  obtain ⟨row, -, rfl⟩ := List.mem_map.mp hs
  have hcounts : (u.db.dashboardSession row).delivery =
      countsOf (u.db.addressedTo row.sessionId) := rfl
  have hsid : (u.db.dashboardSession row).sessionId = row.sessionId := rfl
  have hnone : ∀ d ∈ u.db.addressedTo row.sessionId, d.state ≠ .dispatching :=
    fun d hd => not_dispatching_of_desk h (List.mem_of_mem_filter hd)
  obtain ⟨hq, hd, ha, hr, hf, htotal⟩ := wordCounts hnone
  rw [hsid, ← inState_eq_zero]
  -- Every state but `cancelled` is counted under a word.
  constructor
  · intro hagrees
    have hsum := hagrees.total
    rw [hcounts, hsid] at hsum
    omega
  · intro hzero
    rw [hzero, Nat.add_zero] at hf htotal
    refine ⟨fun e he => ?_, ?_⟩
    · rw [hcounts] at he
      rw [hsid]
      simp only [DeliveryCounts.entries, List.mem_cons, List.not_mem_nil, or_false] at he
      rcases he with rfl | rfl | rfl | rfl | rfl
      · exact hq
      · exact hd
      · exact ha
      · exact hr
      · exact hf
    · rw [hcounts, hsid]
      exact htotal

/-- The request times out twice, is dead-lettered and then discarded. -/
def requestDiscarded : List DeskEvent :=
  requestRetried ++ atDesk [(.sweep, { nowMs := 900000 }), (.discard 8, { nowMs := 900001 })]

def deskDiscarded : Desk := (runAll (Desk.step hastyEnv) (Desk.initial hastyEnv) requestDiscarded).2

/-- The discarded request is in none of the counts of `beta`, whose only delivery it is. -/
theorem discarded_not_counted :
    deskDiscarded.Reachable hastyEnv Any ∧
      ∃ s ∈ deskDiscarded.db.dashboardSessions, ¬ RollupAgrees deskDiscarded.db s := by
  refine ⟨⟨_, Run.of_events _ _ requestDiscarded⟩, ?_⟩
  have hlost : deskDiscarded.db.dashboardSessions.any (fun s =>
      (s.delivery.entries.map Prod.snd).sum ≠ (deskDiscarded.db.addressedTo s.sessionId).length) =
        true := by decide +kernel
  obtain ⟨s, hs, hne⟩ := List.any_eq_true.mp hlost
  exact ⟨s, hs, fun hagrees => of_decide_eq_true hne hagrees.total⟩

/-- Before that its counts agree, the one delivery among them. -/
theorem retried_counted :
    ∃ s ∈ (deskAfter requestRetried).db.dashboardSessions,
      (s.delivery.entries.map Prod.snd).sum = 1 ∧
      RollupAgrees (deskAfter requestRetried).db s := by
  have hnone : (deskAfter requestRetried).db.deliveries.all (fun d => d.state ≠ .cancelled) =
      true := by decide +kernel
  have hone : (deskAfter requestRetried).db.dashboardSessions.any (fun s =>
      (s.delivery.entries.map Prod.snd).sum = 1) = true := by decide +kernel
  obtain ⟨s, hs, hsum⟩ := List.any_eq_true.mp hone
  refine ⟨s, hs, of_decide_eq_true hsum, ?_⟩
  refine (rollups_agree_iff (reachable_deskAfter _) hs).mpr fun d hd => ?_
  exact of_decide_eq_true (List.all_eq_true.mp hnone d (List.mem_of_mem_filter hd))

end Proof
end XBus
