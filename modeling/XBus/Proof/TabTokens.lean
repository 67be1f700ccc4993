import XBus.DashboardAuth

/-!
# A nonce buys one token

What was minted and what was exchanged can be read off the answers a run gave. The store is
`Tracked` by them: a nonce that was neither exchanged nor has expired has its record, a token has
its record until it expires, and there are no other records but those of nonces that are spent. A
sweep takes only records whose time has passed, and since the clock does not go back, nothing is
asked about them again.
-/

set_option autoImplicit false

namespace XBus
namespace Proof

open Lib

/-! ## The past -/

structure Minted where
  nonce : String
  at' : Int
deriving DecidableEq, Repr

structure Exchanged where
  nonce : String
  token : String
  at' : Int
deriving DecidableEq, Repr

/-- The nonces handed out, and when. -/
def mintedIn (tr : List (AuthCall × AuthAnswer)) : List Minted :=
  tr.filterMap fun
    | (.mintNonce _ now, .nonce nonce) => some ⟨nonce, now⟩
    | _ => none

/-- The exchanges that returned a token, and when. -/
def exchangedIn (tr : List (AuthCall × AuthAnswer)) : List Exchanged :=
  tr.filterMap fun
    | (.exchange nonce _ now, .exchanged (some out)) => some ⟨nonce, out.1, now⟩
    | _ => none

def Unspent (nonce : String) (xs : List Exchanged) : Prop :=
  ∀ x ∈ xs, x.nonce ≠ nonce

/-! ## Records -/

section Store

variable (cr : AuthCrypto) (cfg : AuthConfig)

def nonceEntry (m : Minted) (consumedAt : Option Int) : String × NonceRecord :=
  (cr.sha256 m.nonce, ⟨cr.sha256 m.nonce, m.at' + cfg.nonceTtlMs, consumedAt⟩)

def tokenEntry (x : Exchanged) : String × TokenRecord :=
  (cr.sha256 x.token, ⟨cr.sha256 x.token, x.at' + cfg.tokenTtlMs⟩)

/-- The store keeps what the past asks for, up to the given time. -/
structure Tracked (ms : List Minted) (xs : List Exchanged) (clock : Int) (a : DashboardAuth) :
    Prop where
  nonceKeys : (a.nonces.map Prod.fst).Nodup
  tokenKeys : (a.tokens.map Prod.fst).Nodup
  minted_drawn : ∀ m ∈ ms, ∃ k < a.drawn, m.nonce = cr.mintSecret k
  token_drawn : ∀ x ∈ xs, ∃ k < a.drawn, x.token = cr.mintSecret k
  exchanged_minted : ∀ x ∈ xs, ∃ m ∈ ms, m.nonce = x.nonce
  once : ∀ nonce, (xs.filter fun x => x.nonce = nonce).length ≤ 1
  of_nonce : ∀ e ∈ a.nonces, ∃ m ∈ ms, ∃ consumedAt, e = nonceEntry cr cfg m consumedAt ∧
    (consumedAt = none ↔ Unspent m.nonce xs)
  has_nonce : ∀ m ∈ ms, Unspent m.nonce xs → clock < m.at' + cfg.nonceTtlMs →
    nonceEntry cr cfg m none ∈ a.nonces
  of_token : ∀ e ∈ a.tokens, ∃ x ∈ xs, e = tokenEntry cr cfg x
  has_token : ∀ x ∈ xs, clock < x.at' + cfg.tokenTtlMs → tokenEntry cr cfg x ∈ a.tokens

variable {cr cfg} {ms : List Minted} {xs : List Exchanged} {clock now : Int} {a : DashboardAuth}

namespace Tracked

theorem empty : Tracked cr cfg [] [] clock {} where
  nonceKeys := List.nodup_nil
  tokenKeys := List.nodup_nil
  minted_drawn := by simp
  token_drawn := by simp
  exchanged_minted := by simp
  once := by simp
  of_nonce := by simp
  has_nonce := by simp
  of_token := by simp
  has_token := by simp

theorem later (h : Tracked cr cfg ms xs clock a) (hle : clock ≤ now) :
    Tracked cr cfg ms xs now a :=
  { h with
    has_nonce := fun m hm hx hlt => h.has_nonce m hm hx (by omega)
    has_token := fun x hx hlt => h.has_token x hx (by omega) }

/-- A sweep takes nothing that is still asked for. -/
theorem sweep (h : Tracked cr cfg ms xs clock a) (hle : clock ≤ now) :
    Tracked cr cfg ms xs now (a.sweep cfg now) where
  nonceKeys := h.nonceKeys.sublist (List.filter_sublist.map Prod.fst)
  tokenKeys := h.tokenKeys.sublist (List.filter_sublist.map Prod.fst)
  minted_drawn := h.minted_drawn
  token_drawn := h.token_drawn
  exchanged_minted := h.exchanged_minted
  once := h.once
  of_nonce := fun e he => h.of_nonce e (List.mem_of_mem_filter he)
  has_nonce := by
    intro m hm hx hlt
    have hmem := h.has_nonce m hm hx (by omega)
    have hkept : ¬ m.at' + cfg.nonceTtlMs ≤ now := by omega
    refine List.mem_filter.mpr ⟨hmem, ?_⟩
    simp [DashboardAuth.spent, nonceEntry, hkept]
  of_token := fun e he => h.of_token e (List.mem_of_mem_filter he)
  has_token := by
    intro x hx hlt
    have hmem := h.has_token x hx (by omega)
    have hkept : ¬ x.at' + cfg.tokenTtlMs ≤ now := by omega
    refine List.mem_filter.mpr ⟨hmem, ?_⟩
    simp [tokenEntry, hkept]

/-- A token whose time has passed may be deleted. -/
theorem drop (h : Tracked cr cfg ms xs clock a) {key : String}
    (hkey : ∀ x ∈ xs, cr.sha256 x.token = key → x.at' + cfg.tokenTtlMs ≤ clock) :
    Tracked cr cfg ms xs clock { a with tokens := a.tokens.filter fun e => e.1 ≠ key } :=
  { h with
    tokenKeys := h.tokenKeys.sublist (List.filter_sublist.map Prod.fst)
    of_token := fun e he => h.of_token e (List.mem_of_mem_filter he)
    has_token := by
      intro x hx hlt
      refine List.mem_filter.mpr ⟨h.has_token x hx hlt, ?_⟩
      have hne : cr.sha256 x.token ≠ key := by
        intro heq
        have := hkey x hx heq
        omega
      simp [tokenEntry, hne] }

end Tracked

/-! ## Drawing a secret -/

section Secrets

variable (hsha : Function.Injective cr.sha256) (hfresh : Function.Injective cr.mintSecret)

include hfresh in
/-- A secret that is drawn now is none of those drawn before. -/
theorem drawn_ne {secret : String} {n : Nat} (h : ∃ k < n, secret = cr.mintSecret k) :
    secret ≠ cr.mintSecret n := by
  obtain ⟨k, hk, rfl⟩ := h
  intro heq
  have := hfresh heq
  omega

theorem drawn_succ {secret : String} {n : Nat} (h : ∃ k < n, secret = cr.mintSecret k) :
    ∃ k < n + 1, secret = cr.mintSecret k := by
  obtain ⟨k, hk, hs⟩ := h
  exact ⟨k, by omega, hs⟩

theorem unspent_append {nonce : String} {x : Exchanged} :
    Unspent nonce (xs ++ [x]) ↔ Unspent nonce xs ∧ x.nonce ≠ nonce := by
  simp [Unspent, or_imp, forall_and]

/-- A record under a key that has none is added at the end. -/
theorem upsert_new {β : Type} {e : String × β} {rows : List (String × β)}
    (h : ∀ e' ∈ rows, e'.1 ≠ e.1) : upsert Prod.fst e (fun _ => e) rows = rows ++ [e] := by
  unfold upsert
  rw [if_neg]
  intro hany
  obtain ⟨e', he', hk⟩ := List.any_eq_true.mp hany
  exact h e' he' (of_decide_eq_true hk)

theorem nodup_new {β : Type} {e : String × β} {rows : List (String × β)}
    (hrows : (rows.map Prod.fst).Nodup) (h : ∀ e' ∈ rows, e'.1 ≠ e.1) :
    ((rows ++ [e]).map Prod.fst).Nodup := by
  rw [List.map_append, List.nodup_append]
  refine ⟨hrows, List.nodup_singleton _, fun k hk k' hk' => ?_⟩
  obtain ⟨e', he', rfl⟩ := List.mem_map.mp hk
  rw [List.mem_singleton.mp hk']
  exact h e' he'

include hsha hfresh in
theorem Tracked.mint (h : Tracked cr cfg ms xs clock a) {swept : Int} (hswept : clock ≤ swept)
    (hnow : swept ≤ now) :
    Tracked cr cfg (ms ++ [⟨(a.mintNonce cr cfg swept now).1, now⟩]) xs now
      (a.mintNonce cr cfg swept now).2 := by
  have hs := (h.sweep hswept).later hnow
  have hunspent : Unspent (cr.mintSecret a.drawn) xs := by
    intro x hx heq
    obtain ⟨m, hm, hmx⟩ := hs.exchanged_minted x hx
    exact drawn_ne hfresh (hs.minted_drawn m hm) (hmx.trans heq)
  -- no record has the new nonce's key, so the map only grows
  have hother : ∀ e' ∈ (a.sweep cfg swept).nonces, e'.1 ≠ cr.sha256 (cr.mintSecret a.drawn) := by
    intro e' he' heq
    obtain ⟨m, hm, consumedAt, rfl, -⟩ := hs.of_nonce e' he'
    exact drawn_ne hfresh (hs.minted_drawn m hm) (hsha heq)
  have hnonces : (a.mintNonce cr cfg swept now).2.nonces =
      (a.sweep cfg swept).nonces ++ [nonceEntry cr cfg ⟨cr.mintSecret a.drawn, now⟩ none] :=
    upsert_new hother
  exact
    { nonceKeys := by
        rw [hnonces]
        exact nodup_new hs.nonceKeys hother
      tokenKeys := hs.tokenKeys
      minted_drawn := by
        intro m hm
        rcases List.mem_append.mp hm with hm | hm
        · exact drawn_succ (hs.minted_drawn m hm)
        · rw [List.mem_singleton.mp hm]
          exact ⟨a.drawn, Nat.lt_succ_self _, rfl⟩
      token_drawn := fun x hx => drawn_succ (hs.token_drawn x hx)
      exchanged_minted := by
        intro x hx
        obtain ⟨m, hm, hmx⟩ := hs.exchanged_minted x hx
        exact ⟨m, List.mem_append_left _ hm, hmx⟩
      once := hs.once
      of_nonce := by
        intro e he
        rw [hnonces] at he
        rcases List.mem_append.mp he with he | he
        · obtain ⟨m, hm, hrest⟩ := hs.of_nonce e he
          exact ⟨m, List.mem_append_left _ hm, hrest⟩
        · refine ⟨_, List.mem_append_right _ (List.mem_singleton_self _), none,
            List.mem_singleton.mp he, ?_⟩
          exact iff_of_true rfl hunspent
      has_nonce := by
        intro m hm hx hlt
        rw [hnonces]
        rcases List.mem_append.mp hm with hm | hm
        · exact List.mem_append_left _ (hs.has_nonce m hm hx hlt)
        · rw [List.mem_singleton.mp hm]
          exact List.mem_append_right _ (List.mem_singleton_self _)
      of_token := hs.of_token
      has_token := hs.has_token }

include hsha hfresh in
/-- The record of a minted nonce is marked, and the token gets one. -/
theorem Tracked.consume (h : Tracked cr cfg ms xs clock a) {m : Minted} (hm : m ∈ ms)
    (hunspent : Unspent m.nonce xs) :
    Tracked cr cfg ms (xs ++ [⟨m.nonce, cr.mintSecret a.drawn, clock⟩]) clock
      (a.consume cr cfg (cr.sha256 m.nonce) clock).2 := by
  set x : Exchanged := ⟨m.nonce, cr.mintSecret a.drawn, clock⟩ with hx
  -- Secrets are drawn afresh, so no token that was there is under the new one's hash.
  have hother : ∀ e' ∈ a.tokens, e'.1 ≠ cr.sha256 (cr.mintSecret a.drawn) := by
    intro e' he' heq
    obtain ⟨y, hy, rfl⟩ := h.of_token e' he'
    exact drawn_ne hfresh (h.token_drawn y hy) (hsha heq)
  have htokens : (a.consume cr cfg (cr.sha256 m.nonce) clock).2.tokens =
      a.tokens ++ [tokenEntry cr cfg x] := upsert_new hother
  have hnonces : (a.consume cr cfg (cr.sha256 m.nonce) clock).2.nonces =
      updateWhere (fun e => e.1 = cr.sha256 m.nonce)
        (fun e => (e.1, { e.2 with consumedAt := some clock })) a.nonces := rfl
  exact
    { nonceKeys := by
        have hkeys : (a.consume cr cfg (cr.sha256 m.nonce) clock).2.nonces.map Prod.fst =
            a.nonces.map Prod.fst := by
          rw [hnonces]
          exact map_updateWhere Prod.fst fun _ _ => rfl
        rw [hkeys]
        exact h.nonceKeys
      tokenKeys := by
        rw [htokens]
        exact nodup_new h.tokenKeys hother
      minted_drawn := fun m hm => drawn_succ (h.minted_drawn m hm)
      token_drawn := by
        intro y hy
        rcases List.mem_append.mp hy with hy | hy
        · exact drawn_succ (h.token_drawn y hy)
        · rw [List.mem_singleton.mp hy]
          exact ⟨a.drawn, Nat.lt_succ_self _, rfl⟩
      exchanged_minted := by
        intro y hy
        rcases List.mem_append.mp hy with hy | hy
        · exact h.exchanged_minted y hy
        · rw [List.mem_singleton.mp hy]
          exact ⟨m, hm, rfl⟩
      once := by
        intro nonce
        rw [List.filter_append, List.length_append]
        -- This nonce had no exchange yet, and the others get none.
        by_cases hn : m.nonce = nonce
        · have hnone : xs.filter (fun y => y.nonce = nonce) = [] :=
            List.filter_eq_nil_iff.mpr fun y hy => by simpa [hn] using hunspent y hy
          rw [hnone]
          exact (Nat.zero_add _).trans_le (List.length_filter_le _ _)
        · simpa [hx, hn] using h.once nonce
      of_nonce := by
        intro e he
        rw [hnonces] at he
        obtain ⟨e₀, he₀, rfl⟩ := mem_updateWhere.mp he
        obtain ⟨m₀, hm₀, consumedAt, rfl, hiff⟩ := h.of_nonce e₀ he₀
        refine ⟨m₀, hm₀, ?_⟩
        -- The entry of this nonce is consumed now, any other is as it was.
        by_cases hk : m₀.nonce = m.nonce
        · refine ⟨some clock, by simp [nonceEntry, hk], ?_⟩
          simp [unspent_append, hx, hk]
        · have hne : cr.sha256 m₀.nonce ≠ cr.sha256 m.nonce := fun heq => hk (hsha heq)
          refine ⟨consumedAt, by simp [nonceEntry, hne], ?_⟩
          rw [hiff, unspent_append]
          exact (and_iff_left (Ne.symm hk)).symm
      has_nonce := by
        intro m₀ hm₀ hx₀ hlt
        obtain ⟨hx₀, hne⟩ := unspent_append.mp hx₀
        rw [hnonces]
        refine mem_updateWhere_of_mem (h.has_nonce m₀ hm₀ hx₀ hlt) ?_
        exact decide_eq_false fun heq => hne (hsha heq).symm
      of_token := by
        intro e he
        rw [htokens] at he
        rcases List.mem_append.mp he with he | he
        · obtain ⟨y, hy, rfl⟩ := h.of_token e he
          exact ⟨y, List.mem_append_left _ hy, rfl⟩
        · exact ⟨x, List.mem_append_right _ (List.mem_singleton_self _), List.mem_singleton.mp he⟩
      has_token := by
        intro y hy hlt
        rw [htokens]
        rcases List.mem_append.mp hy with hy | hy
        · exact List.mem_append_left _ (h.has_token y hy hlt)
        · rw [List.mem_singleton.mp hy]
          exact List.mem_append_right _ (List.mem_singleton_self _) }

include hsha hfresh in
/-- What an exchange returns, and that the store keeps track of it. -/
theorem Tracked.exchange (h : Tracked cr cfg ms xs clock a) (hsome : ∀ n, cr.mintSecret n ≠ "")
    (nonce : String) {swept : Int} (hswept : clock ≤ swept) (hnow : swept ≤ now) :
    (((∃ m ∈ ms, m.nonce = nonce ∧ now < m.at' + cfg.nonceTtlMs) ∧ Unspent nonce xs) ∧
      ∃ token, (a.exchange cr cfg nonce swept now).1 = some (token, now + cfg.tokenTtlMs) ∧
        Tracked cr cfg ms (xs ++ [⟨nonce, token, now⟩]) now (a.exchange cr cfg nonce swept now).2) ∨
    (¬((∃ m ∈ ms, m.nonce = nonce ∧ now < m.at' + cfg.nonceTtlMs) ∧ Unspent nonce xs) ∧
      (a.exchange cr cfg nonce swept now).1 = none ∧
      Tracked cr cfg ms xs now (a.exchange cr cfg nonce swept now).2) := by
  have hs := (h.sweep hswept).later hnow
  unfold DashboardAuth.exchange
  by_cases hempty : nonce = ""
  · rw [if_pos hempty]
    refine .inr ⟨?_, rfl, h.later (hswept.trans hnow)⟩
    rintro ⟨⟨m, hm, rfl, -⟩, -⟩
    obtain ⟨k, -, hk⟩ := h.minted_drawn m hm
    exact hsome k (hk ▸ hempty)
  · rw [if_neg hempty]
    dsimp only
    cases hfind : (a.sweep cfg swept).nonces.find? fun e => e.1 = cr.sha256 nonce with
    | none =>
      refine .inr ⟨?_, rfl, hs⟩
      rintro ⟨⟨m, hm, rfl, hlt⟩, hx⟩
      have hne := List.find?_eq_none.mp hfind _ (hs.has_nonce m hm hx hlt)
      simp [nonceEntry] at hne
    | some e =>
      have hkey : e.1 = cr.sha256 nonce := by simpa using List.find?_some hfind
      obtain ⟨m, hm, consumedAt, rfl, hiff⟩ := hs.of_nonce e (List.mem_of_find?_eq_some hfind)
      obtain rfl : m.nonce = nonce := hsha hkey
      cases consumedAt with
      | some at' =>
        refine .inr ⟨fun hgood => ?_, rfl, hs⟩
        cases hiff.mpr hgood.2
      | none =>
        have hunspent : Unspent m.nonce xs := hiff.mp rfl
        by_cases hlate : m.at' + cfg.nonceTtlMs ≤ now
        · have hout : ((nonceEntry cr cfg m none).2.consumedAt.isSome ||
              decide ((nonceEntry cr cfg m none).2.expiresAt ≤ now)) = true :=
            decide_eq_true hlate
          dsimp only
          rw [if_pos hout]
          refine .inr ⟨?_, rfl, hs⟩
          rintro ⟨⟨m', hm', hnonce, hlt⟩, -⟩
          -- both records of the nonce are under one key
          have hmem := hs.has_nonce m' hm' (hnonce ▸ hunspent) hlt
          have hone := eq_of_key_eq hs.nonceKeys hmem (List.mem_of_find?_eq_some hfind)
            (by simp [nonceEntry, hnonce])
          have hexp : m'.at' + cfg.nonceTtlMs = m.at' + cfg.nonceTtlMs :=
            congrArg (fun e => e.2.expiresAt) hone
          omega
        · have hout : ¬((nonceEntry cr cfg m none).2.consumedAt.isSome ||
              decide ((nonceEntry cr cfg m none).2.expiresAt ≤ now)) = true :=
            fun hd => hlate (of_decide_eq_true hd)
          have hhash : ¬(nonceEntry cr cfg m none).2.hash ≠ cr.sha256 m.nonce := not_not.mpr rfl
          dsimp only
          rw [if_neg hout, if_neg hhash]
          exact .inl ⟨⟨⟨m, hm, rfl, by omega⟩, hunspent⟩, _, rfl,
            hs.consume hsha hfresh hm hunspent⟩

include hsha in
/-- What a validation answers, and that the store keeps track of the past. -/
theorem Tracked.validate (h : Tracked cr cfg ms xs clock a) (hsome : ∀ n, cr.mintSecret n ≠ "")
    (token : String) (hnow : clock ≤ now) :
    ((a.validateToken cr token now).1 = true ↔
      ∃ x ∈ xs, x.token = token ∧ now - x.at' < cfg.tokenTtlMs) ∧
    Tracked cr cfg ms xs now (a.validateToken cr token now).2 := by
  have hs := h.later hnow
  unfold DashboardAuth.validateToken
  by_cases hempty : token = ""
  · rw [if_pos hempty]
    refine ⟨iff_of_false Bool.false_ne_true ?_, hs⟩
    rintro ⟨x, hx, rfl, -⟩
    obtain ⟨k, -, hk⟩ := h.token_drawn x hx
    exact hsome k (hk ▸ hempty)
  · rw [if_neg hempty]
    dsimp only
    cases hfind : a.tokens.find? fun e => e.1 = cr.sha256 token with
    | none =>
      refine ⟨iff_of_false Bool.false_ne_true ?_, hs⟩
      rintro ⟨x, hx, rfl, hlt⟩
      have hne := List.find?_eq_none.mp hfind _ (hs.has_token x hx (by omega))
      simp [tokenEntry] at hne
    | some e =>
      have hmem := List.mem_of_find?_eq_some hfind
      have hkey : e.1 = cr.sha256 token := by simpa using List.find?_some hfind
      obtain ⟨x, hx, rfl⟩ := h.of_token e hmem
      obtain rfl : x.token = token := hsha hkey
      by_cases hlate : x.at' + cfg.tokenTtlMs ≤ now
      · -- another exchange with the token would have the same record
        have hall : ∀ y ∈ xs, cr.sha256 y.token = cr.sha256 x.token →
            y.at' + cfg.tokenTtlMs ≤ now := by
          intro y hy heq
          by_contra hlt
          have hone := eq_of_key_eq hs.tokenKeys (hs.has_token y hy (by omega)) hmem heq
          have hexp : y.at' + cfg.tokenTtlMs = x.at' + cfg.tokenTtlMs :=
            congrArg (fun e => e.2.expiresAt) hone
          omega
        dsimp only
        rw [if_pos (show (tokenEntry cr cfg x).2.expiresAt ≤ now from hlate)]
        refine ⟨iff_of_false Bool.false_ne_true ?_, hs.drop hall⟩
        rintro ⟨y, hy, heq, hlt⟩
        have := hall y hy (congrArg cr.sha256 heq)
        omega
      · dsimp only
        rw [if_neg (show ¬(tokenEntry cr cfg x).2.expiresAt ≤ now from hlate)]
        exact ⟨iff_of_true (decide_eq_true rfl) ⟨x, hx, rfl, by omega⟩, hs⟩

end Secrets

end Store

/-! ## Runs -/

section Runs

variable {cr : AuthCrypto} {cfg : AuthConfig}

theorem mintedIn_snoc (tr : List (AuthCall × AuthAnswer)) (e : AuthCall × AuthAnswer) :
    mintedIn (tr ++ [e]) = mintedIn tr ++ mintedIn [e] :=
  List.filterMap_append

theorem exchangedIn_snoc (tr : List (AuthCall × AuthAnswer)) (e : AuthCall × AuthAnswer) :
    exchangedIn (tr ++ [e]) = exchangedIn tr ++ exchangedIn [e] :=
  List.filterMap_append

/-- One call keeps the store tracked by the past, the call included. -/
theorem tracked_step (hsha : Function.Injective cr.sha256)
    (hfresh : Function.Injective cr.mintSecret) (hsome : ∀ n, cr.mintSecret n ≠ "")
    {tr : List (AuthCall × AuthAnswer)} {s : AuthState} {c : AuthCall} (hc : Forward s c)
    (h : Tracked cr cfg (mintedIn tr) (exchangedIn tr) s.clock s.auth) :
    Tracked cr cfg (mintedIn (tr ++ [(c, (s.step cr cfg c).1)]))
      (exchangedIn (tr ++ [(c, (s.step cr cfg c).1)])) (s.step cr cfg c).2.clock
      (s.step cr cfg c).2.auth := by
  obtain ⟨hswept, hnow⟩ := hc
  rw [mintedIn_snoc, exchangedIn_snoc]
  -- A mint adds to the one list, an exchange that succeeds to the other.
  cases c with
  | mintNonce swept now =>
    show Tracked cr cfg (mintedIn tr ++ [_]) (exchangedIn tr ++ []) now _
    rw [List.append_nil]
    exact h.mint hsha hfresh hswept hnow
  | exchange nonce swept now =>
    rcases h.exchange hsha hfresh hsome nonce hswept hnow with
      ⟨-, token, hout, hnew⟩ | ⟨-, hout, hnew⟩
    · have hanswer : (s.step cr cfg (.exchange nonce swept now)).1 =
          .exchanged (some (token, now + cfg.tokenTtlMs)) := congrArg AuthAnswer.exchanged hout
      rw [hanswer]
      show Tracked cr cfg (mintedIn tr ++ []) (exchangedIn tr ++ [_]) now _
      rw [List.append_nil]
      exact hnew
    · have hanswer : (s.step cr cfg (.exchange nonce swept now)).1 = .exchanged none :=
        congrArg AuthAnswer.exchanged hout
      rw [hanswer]
      show Tracked cr cfg (mintedIn tr ++ []) (exchangedIn tr ++ []) now _
      rw [List.append_nil, List.append_nil]
      exact hnew
  | validateToken token now =>
    show Tracked cr cfg (mintedIn tr ++ []) (exchangedIn tr ++ []) now _
    rw [List.append_nil, List.append_nil]
    exact (h.validate hsha hsome token hswept).2

theorem tracked_run (hsha : Function.Injective cr.sha256)
    (hfresh : Function.Injective cr.mintSecret) (hsome : ∀ n, cr.mintSecret n ≠ "")
    {t₀ : Int} {tr : List (AuthCall × AuthAnswer)} {s : AuthState}
    (run : Run (AuthState.step cr cfg) Forward ⟨{}, t₀⟩ tr s) :
    Tracked cr cfg (mintedIn tr) (exchangedIn tr) s.clock s.auth := by
  refine run.invariant_log (P := fun tr s =>
    Tracked cr cfg (mintedIn tr) (exchangedIn tr) s.clock s.auth) Tracked.empty ?_
  intro tr u c hu hc
  exact tracked_step hsha hfresh hsome hc hu

end Runs

/-- A generator whose secrets get longer. -/
def longer : AuthCrypto where
  sha256 text := text
  mintSecret n := String.ofList (List.replicate (n + 1) 'a')

theorem longer_fresh : Function.Injective longer.mintSecret := by
  intro n k h
  have hlist : List.replicate (n + 1) 'a' = List.replicate (k + 1) 'a' := String.ofList_injective h
  have hlen := congrArg List.length hlist
  simpa using hlen

theorem longer_some (n : Nat) : longer.mintSecret n ≠ "" := by
  intro h
  have hlist : List.replicate (n + 1) 'a' = [] := String.ofList_injective h
  cases hlist

/-- A nonce is minted, exchanged, and tried once more. -/
def tabCalls : List AuthCall := [.mintNonce 0 0, .exchange "a" 1 1, .exchange "a" 2 2]

def tabRun : List (AuthCall × AuthAnswer) × AuthState :=
  runAll (AuthState.step longer {}) ⟨{}, 0⟩ tabCalls

end Proof
end XBus
