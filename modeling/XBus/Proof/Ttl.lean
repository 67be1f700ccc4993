import XBus.Lib.Calendar
import XBus.Proof.Obligations
import XBus.Proof.Sweeps

/-!
# Acceptance TTLs

A send with a TTL stores `new Date(now + ttlSeconds * 1000).toISOString()`, and the readers
compare that text with the text of their own clock. Nothing bounds `ttlSeconds`, so the instant
may have no text at all (and the send throws), or one of a year from 10000 on, which starts with
a sign and sorts before the texts of today: such a message has expired as soon as it is sent.

`treatedAs` says that all readers agree on the comparison of the texts; `ttl_honoured_iff` says
when that comparison is the one of the instants.
-/

set_option autoImplicit false

namespace XBus
namespace Proof

open Lib

variable {env : Env} {mom : Moment} {now : Iso} {auth : SessionAuthority} {b b' : Broker}

/-! ## Instants and their texts -/

theorem Iso.le_iff {s t : Iso} : s.le t = true ↔
    (Iso.yearTenThousand ≤ s.ms ∧ t.ms < Iso.yearTenThousand) ∨
      ((s.ms < Iso.yearTenThousand ↔ t.ms < Iso.yearTenThousand) ∧ s.ms ≤ t.ms) := by
  unfold Iso.le Iso.key
  by_cases hs : s.ms < Iso.yearTenThousand
  · by_cases ht : t.ms < Iso.yearTenThousand
    · simp [hs, ht]
    · simp [hs, ht]
  · by_cases ht : t.ms < Iso.yearTenThousand
    · simp [hs, ht, Nat.le_of_not_lt hs]
    · simp [hs, ht]

/-- What `Iso.le` abbreviates: the order of the texts. -/
theorem Iso.le_iff_isoText {s t : Iso} (hs : s.ms ≤ Iso.maxMs) (ht : t.ms ≤ Iso.maxMs) :
    s.le t = true ↔ ¬ isoText t.ms < isoText s.ms := by
  have hrange (x : Iso) (hx : x.ms ≤ Iso.maxMs) : (x.ms : Int).natAbs ≤ maxTime := by
    rw [Int.natAbs_natCast]
    exact hx
  rw [isoText_lt_iff (hrange t ht) (hrange s hs) (Int.natCast_nonneg _) (Int.natCast_nonneg _),
    Iso.le_iff]
  unfold Lib.yearTenThousand Iso.yearTenThousand
  omega

/-- The texts sort as the instants do where both have four-digit years, or neither has. -/
theorem Iso.le_iff_ms {s t : Iso} : (s.le t = true ↔ s.ms ≤ t.ms) ↔
    (s.ms < Iso.yearTenThousand ↔ t.ms < Iso.yearTenThousand) := by
  rw [Iso.le_iff]
  omega

/-! ## Readers -/

/-- Every reader of a message's expiry takes the message to have expired, or none does: the
    queries of the pulls, the inbox, the check before a wake, and the sweep. -/
structure TreatedAs (env : Env) (mom : Moment) (b : Broker) (m : Message) (expired : Prop) :
    Prop where
  pulls : ∀ d ∈ b.deliveries, d.messageId = m.messageId → d.state.waiting = true →
    d.due mom.now = true → (m ∈ b.eligible d.recipientSessionId mom.now ↔ ¬ expired)
  inbox : ∀ d ∈ b.deliveries, d.messageId = m.messageId → ∀ auth : SessionAuthority,
    d.recipientSessionId = auth.sessionId → obliges auth.epoch (d, m) = true →
    ∀ limit, b.deliveries.length ≤ limit →
      ((∃ e ∈ b.recoveredEntries auth limit mom.now, e.messageId = m.messageId) ↔ ¬ expired)
  wakes : ∀ d ∈ b.deliveries, d.messageId = m.messageId → d.state.waiting = true →
    d.due mom.now = true → Open b d.recipientSessionId →
    (∀ x ∈ b.deliveries, x.recipientSessionId = d.recipientSessionId → x.state.waiting = true →
      x.due mom.now = true → x.messageId = m.messageId) →
    (b.hasEligibleDelivery d.recipientSessionId mom.now = true ↔ ¬ expired)
  sweeps : ∀ d ∈ b.deliveries, d.messageId = m.messageId → d.state.waiting = true →
    ((∃ x ∈ (sweep env mom b).2.deliveries, x.messageId = m.messageId ∧ x.state = .expired) ↔
      expired)

section Readers

variable {m : Message} {e : Iso}

theorem unexpired_iff (he : m.expiresAt = some e) :
    m.unexpired now = true ↔ ¬ e.le now = true := by
  simp [Message.unexpired, he, Iso.gt]

theorem pulls_iff (found : b.message? m.messageId = some m) (he : m.expiresAt = some e)
    {d : Delivery} (hd : d ∈ b.deliveries) (hid : d.messageId = m.messageId)
    (hwaits : d.state.waiting = true) (hdue : d.due now = true) :
    m ∈ b.eligible d.recipientSessionId now ↔ ¬ e.le now = true := by
  rw [mem_eligible, ← unexpired_iff he]
  constructor
  · rintro ⟨-, -, -, -, -, -, hfresh⟩
    exact hfresh
  · intro hfresh
    exact ⟨d, hd, rfl, hwaits, hdue, by rw [hid]; exact found, hfresh⟩

theorem length_recoverable_le : (recoverable b auth now).length ≤ b.deliveries.length := by
  rw [recoverable, List.length_insertionSort]
  have hjoin : (mailOf b auth.sessionId).length ≤ b.deliveries.length := by
    refine Nat.le_trans (List.length_filterMap_le _ _) ?_
    exact List.length_filter_le _ _
  exact Nat.le_trans (List.length_filter_le _ _) hjoin

theorem inbox_iff (found : b.message? m.messageId = some m) (he : m.expiresAt = some e)
    {d : Delivery} (hd : d ∈ b.deliveries) (hid : d.messageId = m.messageId)
    (hto : d.recipientSessionId = auth.sessionId) (howes : obliges auth.epoch (d, m) = true)
    {limit : Nat} (hlimit : b.deliveries.length ≤ limit) :
    (∃ x ∈ b.recoveredEntries auth limit now, x.messageId = m.messageId) ↔ ¬ e.le now = true := by
  rw [recoveredEntries_eq, List.take_of_length_le (Nat.le_trans length_recoverable_le hlimit),
    ← unexpired_iff he]
  have hfound : b.message? d.messageId = some m := by
    rw [hid]
    exact found
  constructor
  · rintro ⟨x, hx, hxid⟩
    obtain ⟨dm, hdm, rfl⟩ := List.mem_map.mp hx
    obtain ⟨hmail, -, hfresh⟩ := mem_recoverable.mp hdm
    obtain ⟨-, hm, hmid⟩ := mem_mailOf hmail
    -- The entry names the message, and the message is what is stored under its id.
    have hsame : dm.2 = m := by
      rw [← hmid, show dm.2.messageId = m.messageId from hxid, found] at hm
      exact (Option.some.inj hm).symm
    rwa [hsame] at hfresh
  · intro hfresh
    refine ⟨_, List.mem_map_of_mem (mem_recoverable.mpr ⟨?_, howes, hfresh⟩), rfl⟩
    refine List.mem_filterMap.mpr ⟨d, List.mem_filter.mpr ⟨hd, by simpa using hto⟩, ?_⟩
    rw [hfound]
    rfl

theorem wakes_iff (found : b.message? m.messageId = some m) (he : m.expiresAt = some e)
    {d : Delivery} (hd : d ∈ b.deliveries) (hid : d.messageId = m.messageId)
    (hwaits : d.state.waiting = true) (hdue : d.due now = true)
    (hopen : Open b d.recipientSessionId)
    (honly : ∀ x ∈ b.deliveries, x.recipientSessionId = d.recipientSessionId →
      x.state.waiting = true → x.due now = true → x.messageId = m.messageId) :
    b.hasEligibleDelivery d.recipientSessionId now = true ↔ ¬ e.le now = true := by
  rw [hasEligibleDelivery_iff, ← pulls_iff found he hd hid hwaits hdue]
  constructor
  · rintro ⟨-, hsome⟩
    obtain ⟨m', hm'⟩ := List.exists_mem_of_ne_nil _ hsome
    obtain ⟨x, hx, hto, hxwaits, hxdue, hxfound, -⟩ := mem_eligible.mp hm'
    rw [honly x hx hto hxwaits hxdue, found] at hxfound
    rwa [Option.some.inj hxfound]
  · intro hm
    exact ⟨hopen, List.ne_nil_of_mem hm⟩

theorem ttlPassed_iff (found : b.message? m.messageId = some m) (he : m.expiresAt = some e) :
    ttlPassed b now m.messageId = true ↔ e.le now = true := by
  simp [ttlPassed, found, he]

/-- The acknowledgement pass has nothing to do with what waits, and the expiry of a session leaves
    what the TTL pass has expired. -/
theorem sweeps_iff (inv : MailInv b) (found : b.message? m.messageId = some m)
    (he : m.expiresAt = some e) {d : Delivery} (hd : d ∈ b.deliveries)
    (hid : d.messageId = m.messageId) (hwaits : d.state.waiting = true) :
    (∃ x ∈ (sweep env mom b).2.deliveries, x.messageId = m.messageId ∧ x.state = .expired) ↔
      e.le mom.now = true := by
  have hserved : d ∉ served b env mom.now := by
    intro h
    rw [(served_lapsed h).flies] at hwaits
    cases hwaits
  have hpassed : ttlPassed b mom.now d.messageId = true ↔ e.le mom.now = true := by
    rw [hid]
    exact ttlPassed_iff found he
  -- A row that waits has no ack timeout to serve, so its time to live decides.
  rw [sweep_rows inv]
  constructor
  · rintro ⟨x, hx, hxid, hstate⟩
    obtain ⟨y, hy, rfl⟩ := List.mem_map.mp hx
    have hy' : y = d := by
      refine inv.delivery_eq hy hd ?_
      rw [hid, ← hxid, sweptRow_messageId]
    rw [hy', sweptRow, if_neg hserved] at hstate
    by_contra hearly
    have hwaiting : ¬ (d.state.waiting = true ∧ ttlPassed b mom.now d.messageId = true) :=
      fun h => hearly (hpassed.mp h.2)
    rw [if_neg hwaiting] at hstate
    split_ifs at hstate
    · rw [laidToRest_state hwaits] at hstate
      cases hstate
    · rw [hstate] at hwaits
      cases hwaits
  · intro hlate
    refine ⟨_, List.mem_map_of_mem hd, ?_⟩
    rw [sweptRow, if_neg hserved, if_pos (And.intro hwaits (hpassed.mpr hlate)),
      laidToRest_expired rfl, ite_self]
    exact ⟨hid, rfl⟩

/-- All readers go by the comparison of the texts. -/
theorem treatedAs (env : Env) (mom : Moment) (inv : MailInv b)
    (found : b.message? m.messageId = some m)
    (he : m.expiresAt = some e) : TreatedAs env mom b m (e.le mom.now = true) where
  pulls _ := pulls_iff found he
  inbox _ hd hid _ hto howes _ hlimit := inbox_iff found he hd hid hto howes hlimit
  wakes _ := wakes_iff found he
  sweeps _ := sweeps_iff inv found he

end Readers

/-! ## Sending -/

theorem insertMessage_ok {m : Message} : insertMessage m b = (.ok (), b') ↔
    (¬ b.messages.any fun x => x.recipientSessionId = m.recipientSessionId ∧
        x.recipientSequence = m.recipientSequence) ∧
      (m.idempotencyKey = none ∨ ¬ b.messages.any fun x =>
        x.senderSessionId = m.senderSessionId ∧ x.idempotencyKey = m.idempotencyKey) ∧
      { b with messages := b.messages ++ [m] } = b' := by
  simp only [insertMessage, Call.get_bind, Call.bind_ok, Call.require_ok, Call.modify_ok]
  constructor
  · rintro ⟨_, _, ⟨hseq, rfl⟩, _, _, ⟨hkey, rfl⟩, rfl⟩
    exact ⟨hseq, hkey, rfl⟩
  · rintro ⟨hseq, hkey, rfl⟩
    exact ⟨(), b, ⟨hseq, rfl⟩, (), b, ⟨hkey, rfl⟩, rfl⟩

/-- Without a TTL the send posts; then with one it throws only for an instant without a text. -/
theorem send_with_ttl {input : SendInput} {r : SendResult} {t : Nat}
    (h : send env now auth { input with ttlSeconds := none } b = (.ok r, b'))
    (hnew : r.deduplicated = false) (fits : now.ms + t * 1000 ≤ Iso.maxMs) :
    Succeeds (send env now auth { input with ttlSeconds := some t }) b := by
  have hnone : b.duplicateOf auth.sessionId input.idempotencyKey = none := by
    rcases send_posts h with ⟨dup, -, rfl, -⟩ | ⟨hnone, -⟩
    · cases hnew
    · exact hnone
  obtain ⟨expiresAt, hexpiry⟩ : ∃ e, ttlExpiry now (some t) = .ok e := by
    cases t with
    | zero => exact ⟨none, rfl⟩
    | succ t => exact ⟨_, if_pos fits⟩
  simp only [send, sendTransaction, Call.transaction_ok, Call.get_bind, hnone,
    Call.bind_ok, Call.lift_ok,
    Call.requireElse_ok, Call.act_bind, Call.modify_bind, Call.pure_ok] at h
  obtain ⟨recipient, _, ⟨hto, rfl⟩, _, _, ⟨hlive, rfl⟩, _, _, ⟨hopen, rfl⟩, sequence, b₂, halloc,
    _, _, ⟨-, rfl⟩, _, b₄, hinsert, -, -⟩ := h
  obtain ⟨hseq, hkey, -⟩ := insertMessage_ok.mp hinsert
  simp only [Succeeds, send, sendTransaction, Call.transaction_ok, Call.get_bind, hnone,
    Call.bind_ok, Call.lift_ok,
    Call.requireElse_ok, Call.act_bind, Call.modify_bind, Call.pure_ok]
  exact ⟨_, _, recipient, b, ⟨hto, rfl⟩, (), b, ⟨hlive, rfl⟩, (), b, ⟨hopen, rfl⟩, sequence, b₂,
    halloc, expiresAt, b₂, ⟨hexpiry, rfl⟩, (), _, insertMessage_ok.mpr ⟨hseq, hkey, rfl⟩, rfl, rfl⟩

theorem ttlExpiry_ok {t : Nat} {o : Option Iso} (ht : 0 < t)
    (h : ttlExpiry now (some t) = .ok o) :
    now.ms + t * 1000 ≤ Iso.maxMs ∧ o = some (now.plus (t * 1000)) := by
  cases t with
  | zero => cases ht
  | succ t =>
    simp only [ttlExpiry] at h
    split at h
    · rename_i fits
      exact ⟨fits, (Except.ok.inj h).symm⟩
    · cases h

theorem Sent.createdAt {input : SendInput} {r : SendResult} {m : Message}
    (h : Sent env now auth input b b' r m) : m.createdAt = now := by
  obtain ⟨_, _, _, hrow⟩ := h.row
  rw [hrow]
  rfl

/-- The send stores a message created at its own time, and at the moment `mom` every reader in
    every reachable database that holds the message takes it to have expired exactly if the TTL has
    run out; the texts that are compared sort as the instants do. -/
def HonouredAt (env : Env) (u : Desk) (sent : Moment) (auth : SessionAuthority) (input : SendInput)
    (t : Nat) (mom : Moment) : Prop :=
  ∃ r b' m, send env sent.now auth { input with ttlSeconds := some t } u.db = (.ok r, b') ∧
    r.deduplicated = false ∧ b'.message? r.messageId = some m ∧ m.createdAt = sent.now ∧
    (∀ v : Desk, v.Reachable env Any → v.db.message? r.messageId = some m →
      TreatedAs env mom v.db m (sent.nowMs + t * 1000 ≤ mom.nowMs)) ∧
    ∃ e, m.expiresAt = some e ∧
      (isoText mom.nowMs < isoText e.ms ↔ mom.nowMs < sent.nowMs + t * 1000)

theorem Posted.found {m : Message} (h : Posted b b' m) (inv : MailInv b) :
    b'.message? m.messageId = some m := by
  rw [Broker.message?, h.messages, List.find?_append]
  have hnone : b.messages.find? (fun x => x.messageId = m.messageId) = none := by
    refine List.find?_eq_none.mpr fun x hx hid => ?_
    have hbelow := inv.below x hx
    rw [of_decide_eq_true hid] at hbelow
    exact Nat.not_lt.mpr h.fresh hbelow
  rw [hnone]
  simp

/-- What a reader in the database the send leaves behind would have to see. -/
theorem Sent.desk {u : Desk} {sent : Moment} {input : SendInput} {r : SendResult}
    (hreach : u.Reachable env Any) (h : send env sent.now auth input u.db = (.ok r, b')) :
    ∃ v : Desk, v.Reachable env Any ∧ v.db = b' := by
  obtain ⟨log, run⟩ := hreach
  refine ⟨_, ⟨_, run.snoc (.store (.send auth input), sent) trivial⟩, ?_⟩
  have hsnd : (send env sent.now auth input u.db).2 = b' := congrArg Prod.snd h
  rw [← hsnd]
  simp only [Desk.step, DeskOp.call, exec, Call.map_snd]

/-- **When a TTL is honoured.** A send that would post without a TTL posts with one, and all readers
    expire the message from `created_at + ttlSeconds` on and not before, exactly if that instant has
    a text and its year has four digits as the reader's has, or more as the reader's has. -/
theorem ttl_honoured_iff {u : Desk} {sent : Moment} {input : SendInput} {r : SendResult} {t : Nat}
    (hreach : u.Reachable env Any) (ht : 0 < t) (hclock : mom.nowMs ≤ Iso.maxMs)
    (hposts : send env sent.now auth { input with ttlSeconds := none } u.db = (.ok r, b'))
    (hnew : r.deduplicated = false) :
    HonouredAt env u sent auth input t mom ↔ sent.nowMs + t * 1000 ≤ Iso.maxMs ∧
      (sent.nowMs + t * 1000 < Iso.yearTenThousand ↔ mom.nowMs < Iso.yearTenThousand) := by
  have inv := mailInv_of_desk hreach
  set e := sent.now.plus (t * 1000) with he
  have hms : e.ms = sent.nowMs + t * 1000 := rfl
  have hnone : u.db.duplicateOf auth.sessionId input.idempotencyKey = none := by
    rcases send_posts hposts with ⟨dup, -, rfl, -⟩ | ⟨hnone, -⟩
    · cases hnew
    · exact hnone
  have hstores {r : SendResult} {b' : Broker}
      (h : send env sent.now auth { input with ttlSeconds := some t } u.db = (.ok r, b')) :
      sent.nowMs + t * 1000 ≤ Iso.maxMs ∧ ∃ m, r.messageId = m.messageId ∧
        r.deduplicated = false ∧ b'.message? m.messageId = some m ∧ m.createdAt = sent.now ∧
        m.expiresAt = some e ∧ Posted u.db b' m := by
    rcases send_posts h with ⟨dup, hdup, -⟩ | ⟨-, m, hsent⟩
    · rw [hnone] at hdup
      cases hdup
    · obtain ⟨fits, hexpires⟩ := ttlExpiry_ok ht hsent.expiry
      refine ⟨fits, m, ?_, ?_, hsent.posted.found inv, hsent.createdAt, hexpires, hsent.posted⟩
      · rw [hsent.result]
      · rw [hsent.result]
  constructor
  · rintro ⟨r, b', m, hsend, -, hm, -, hall, -⟩
    obtain ⟨fits, m', hid, -, hfound, -, hexpires, hposted⟩ := hstores hsend
    rw [hid, hfound] at hm
    obtain rfl := Option.some.inj hm
    refine ⟨fits, ?_⟩
    -- The database the send leaves behind has the message waiting, and the pulls go by the texts.
    obtain ⟨v, hv, rfl⟩ := Sent.desk hreach hsend
    obtain ⟨id, at', hrows⟩ := hposted.deliveries
    have hpulls := (hall v hv (by rw [hid]; exact hfound)).pulls _
      (by rw [hrows]; exact List.mem_append_right _ (List.mem_singleton_self _)) rfl rfl rfl
    have htexts := (treatedAs env mom (mailInv_of_desk hv) hfound hexpires).pulls _
      (by rw [hrows]; exact List.mem_append_right _ (List.mem_singleton_self _)) rfl rfl rfl
    rw [← hms, ← show mom.now.ms = mom.nowMs from rfl, ← Iso.le_iff_ms]
    exact not_iff_not.mp (htexts.symm.trans hpulls)
  · rintro ⟨fits, hshape⟩
    obtain ⟨r, b', hsend⟩ := send_with_ttl hposts hnew fits
    obtain ⟨-, m, hid, hpost, hfound, hcreated, hexpires, -⟩ := hstores hsend
    have hle : e.le mom.now = true ↔ sent.nowMs + t * 1000 ≤ mom.nowMs := Iso.le_iff_ms.mpr hshape
    refine ⟨r, b', m, hsend, hpost, by rw [hid]; exact hfound, hcreated, ?_, e, hexpires, ?_⟩
    · intro v hv hstored
      rw [hid] at hstored
      have htreated := treatedAs env mom (mailInv_of_desk hv) hstored hexpires
      rwa [hle] at htreated
    · have htext := Iso.le_iff_isoText (s := e) (t := mom.now) fits hclock
      rw [hle] at htext
      show isoText mom.now.ms < isoText e.ms ↔ _
      rw [← not_iff_not, ← htext]
      exact Nat.not_lt.symm

/-- What the runs below send. -/
def plea : SendInput := { recipient := "beta-name", text := "please" }

/-- Five seconds are honoured. -/
theorem short_ttl_honoured :
    let u := deskAfter (atDesk (requestSent.take 3))
    let alpha := component "alpha" .mcp 1 1
    (∃ r b', send plainEnv ⟨1000⟩ alpha plea u.db = (.ok r, b')) ∧
      HonouredAt plainEnv u { nowMs := 1000 } alpha plea 5 { nowMs := 7000 } := by
  intro u alpha
  have hposts : (send plainEnv ⟨1000⟩ alpha plea u.db).1 = .ok
      { messageId := 8, correlationId := 8, recipientSessionId := "beta"
        recipientAlias := "beta-name", sequence := 1, state :=
          .queued, deduplicated := false } := by
    decide +kernel
  refine ⟨⟨_, _, Prod.ext hposts rfl⟩, ?_⟩
  refine (@ttl_honoured_iff plainEnv { nowMs := 7000 } alpha _ u { nowMs := 1000 } plea _ 5
    (reachable_deskAfter _) (by decide) (by decide) (Prod.ext hposts rfl) rfl).mpr ?_
  decide

/-- A TTL past the largest date is refused with a `RangeError`. A TTL into the year 10000 is taken,
    and a sweep that runs at once expires the message. -/
theorem long_ttl_not_honoured :
    let u := deskAfter (atDesk (requestSent.take 3))
    let alpha := component "alpha" .mcp 1 1
    let sends (t : Option Nat) := send plainEnv ⟨1000⟩ alpha { plea with ttlSeconds := t } u.db
    u.Reachable plainEnv Any ∧ (sends none).1.isOk = true ∧
      (sends (some 8640000000000)).1 = .error .range ∧
      ¬ HonouredAt plainEnv u { nowMs := 1000 } alpha plea 8640000000000 { nowMs := 1000 } ∧
      (sends (some 253402300800)).1.isOk = true ∧
      ¬ HonouredAt plainEnv u { nowMs := 1000 } alpha plea 253402300800 { nowMs := 1000 } := by
  intro u alpha sends
  have hsends : (sends none).1.isOk = true ∧ (sends (some 8640000000000)).1 = .error .range ∧
      (sends (some 253402300800)).1.isOk = true ∧
      ((sends (some 253402300800)).2.deliveries.any fun d =>
        d.messageId = 8 ∧ d.state = .queued) = true ∧
      ((sends (some 253402300800)).1.toOption.map (·.messageId)) = some 8 ∧
      ((sweep plainEnv { nowMs := 1000 } (sends (some 253402300800)).2).2.deliveries.any fun d =>
        d.messageId = 8 ∧ d.state = .expired) = true := by decide +kernel
  obtain ⟨hnone, hrange, hlong, hqueued, hid, hexpired⟩ := hsends
  refine ⟨reachable_deskAfter _, hnone, hrange, ?_, hlong, ?_⟩
  · rintro ⟨r, b', m, hsend, -⟩
    have hthrows : (sends (some 8640000000000)).1 = .ok r := congrArg Prod.fst hsend
    rw [hrange] at hthrows
    cases hthrows
  · rintro ⟨r, b', m, hsend, -, hm, -, hall, -⟩
    have hfst : (sends (some 253402300800)).1 = .ok r := congrArg Prod.fst hsend
    have hsnd : (sends (some 253402300800)).2 = b' := congrArg Prod.snd hsend
    obtain ⟨v, hv, rfl⟩ := Sent.desk (reachable_deskAfter _) hsend
    rw [hfst] at hid
    have hmid : m.messageId = 8 := by
      have hfound : m.messageId = r.messageId := by simpa using List.find?_some hm
      exact hfound.trans (Option.some.inj hid)
    rw [hsnd] at hqueued hexpired
    obtain ⟨d, hd, hrow⟩ := List.any_eq_true.mp hqueued
    obtain ⟨hdid, hstate⟩ := of_decide_eq_true hrow
    obtain ⟨x, hx, hgone⟩ := List.any_eq_true.mp hexpired
    obtain ⟨hxid, hxstate⟩ := of_decide_eq_true hgone
    have hlate := ((hall v hv hm).sweeps d hd (hdid.trans hmid.symm) (by rw [hstate]; rfl)).mp
      ⟨x, hx, hxid.trans hmid.symm, hxstate⟩
    exact absurd hlate (by decide)

end Proof
end XBus
