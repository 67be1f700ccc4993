import XBus.Suggestions
import XBus.Proof.Routing

/-!
# Sanitised labels are names, and names stay as they are

What comes out was tested against the grammar, and the last thing done to it was a trim, with the
truncation before it or without. So none of the four rewrites finds anything to do in it.
-/

set_option autoImplicit false

namespace XBus
namespace Proof

open Lib

variable {text : Text}

/-! ## The rewrites -/

/-- Where every character is safe there is nothing to collapse. -/
theorem collapse_of_safe {cs : List Char} (h : ∀ c ∈ cs, isSafeChar c = true) (b : Bool) :
    collapse b cs = cs := by
  induction cs generalizing b with
  | nil => rfl
  | cons c cs ih =>
    rw [collapse, if_pos (h c (by simp)), ih fun d hd => h d (List.mem_cons_of_mem _ hd)]

theorem dropLeading_cons {c : Char} (h : isLowerAlnum c = true) (cs : List Char) :
    dropLeading (c :: cs) = c :: cs := by
  rw [dropLeading, List.dropWhile_cons_of_neg (by simp [h])]

theorem trimTrailing_trimTrailing (cs : List Char) :
    trimTrailing (trimTrailing cs) = trimTrailing cs :=
  List.rdropWhile_idempotent _ _

/-- A label that does not end in a separator. -/
def Trimmed (cs : List Char) : Prop := trimTrailing cs = cs

theorem trimmed_iff {cs : List Char} : Trimmed cs ↔ ∀ c ∈ cs.getLast?, isSeparator c = false := by
  rw [Trimmed, trimTrailing, List.rdropWhile_eq_self_iff]
  constructor
  · intro h c hc
    obtain ⟨hne, rfl⟩ := List.mem_getLast?_eq_getLast hc
    simpa using h hne
  · intro h hne
    simpa using h _ (List.getLast_mem_getLast? hne)

/-! ## Safe characters -/

theorem safe_iff {c : Char} : isSafeChar c = true ↔
    (97 ≤ c.toNat ∧ c.toNat ≤ 122) ∨ (48 ≤ c.toNat ∧ c.toNat ≤ 57) ∨ c = '.' ∨
    c = '_' ∨ c = '-' := by
  simp only [isSafeChar, isLowerAlnum, Bool.or_eq_true, isLower_iff, isDigit_iff, decide_eq_true_eq]
  tauto

theorem safe_name {c : Char} (h : isSafeChar c = true) : isNameChar c = true := by
  simp only [isNameChar, isAsciiAlnum, Bool.or_eq_true, isAlphanum_iff, decide_eq_true_eq]
  rcases safe_iff.mp h with h | h | h | h | h
  · exact .inl (.inl (.inl (.inr (.inr h))))
  · exact .inl (.inl (.inl (.inl h)))
  · exact .inl (.inl (.inr h))
  · exact .inl (.inr h)
  · exact .inr h

theorem safe_toLower {c : Char} (h : isSafeChar c = true) : c.toLower = c := by
  rw [char_eq_iff, toNat_toLower]
  have hlow : ¬ (65 ≤ c.toNat ∧ c.toNat ≤ 90) := by
    rcases safe_iff.mp h with h | h | rfl | rfl | rfl
    · omega
    · omega
    · decide
    · decide
    · decide
  rw [if_neg hlow]

theorem matches_cons {c : Char} {cs : List Char} {n : String} (hn : n.toList = c :: cs) :
    matchesSessionName n = true ↔ isLowerAlnum c = true ∧ 1 ≤ cs.length ∧ cs.length ≤ 47 ∧
      ∀ d ∈ cs, isSafeChar d = true := by
  simp only [matchesSessionName, hn, Bool.and_eq_true, decide_eq_true_eq,
    List.all_eq_true, and_assoc]
  rfl

theorem safe_of_matches {n : String} (h : matchesSessionName n = true) :
    ∀ c ∈ n.toList, isSafeChar c = true := by
  cases hn : n.toList with
  | nil => simp
  | cons c cs =>
    obtain ⟨hc, -, -, hcs⟩ := (matches_cons hn).mp h
    intro d hd
    rcases List.mem_cons.mp hd with rfl | hd
    · simp [isSafeChar, hc]
    · exact hcs d hd

/-! ## Sanitising -/

/-- A name that does not end in a separator is its own sanitised form. -/
theorem sanitize_of_matches (plain : PlainText text) {n : String} (h : matchesSessionName n = true)
    (htrim : Trimmed n.toList) : sanitizeToSessionName text n = some n := by
  have hsafe := safe_of_matches h
  have hname : n.toList.all isNameChar := List.all_eq_true.mpr fun c hc => safe_name (hsafe c hc)
  have hlower : (text.toLowerCase (text.nfc n)).toList = n.toList := by
    rw [plain.nfc n hname, plain.toLowerCase n hname]
    exact (List.map_congr_left fun c hc => safe_toLower (hsafe c hc)).trans (List.map_id _)
  cases hn : n.toList with
  | nil =>
    rw [matchesSessionName, hn] at h
    cases h
  | cons c cs =>
    obtain ⟨hc, hmin, hmax, -⟩ := (matches_cons hn).mp h
    rw [hn] at hsafe htrim hlower
    have hlong : ¬ SESSION_NAME_MAX < (c :: cs).length := by
      rw [List.length_cons, SESSION_NAME_MAX]
      omega
    have hshort : ¬ (c :: cs).length < SESSION_NAME_MIN := by
      rw [List.length_cons, SESSION_NAME_MIN]
      omega
    have hback : String.ofList (c :: cs) = n := by rw [← hn, String.ofList_toList]
    rw [sanitizeToSessionName]
    simp only [hlower, collapse_of_safe hsafe, dropLeading_cons hc, show trimTrailing (c :: cs) =
      c :: cs from htrim, gt_iff_lt, if_neg hlong, if_neg hshort, hback, h, if_true]

/-- The trim, and the truncation with the trim after it. -/
def shortened (cs : List Char) : List Char :=
  if (trimTrailing cs).length > SESSION_NAME_MAX then
    trimTrailing ((trimTrailing cs).take SESSION_NAME_MAX)
  else trimTrailing cs

theorem shortened_trimmed (cs : List Char) : Trimmed (shortened cs) := by
  unfold shortened
  split
  · exact trimTrailing_trimTrailing _
  · exact trimTrailing_trimTrailing _

/-- What is returned matches the grammar and has been trimmed. -/
theorem sanitize_some {s n : String} (h : sanitizeToSessionName text s = some n) :
    matchesSessionName n = true ∧ Trimmed n.toList := by
  set cut := shortened (dropLeading (collapse false (text.toLowerCase (text.nfc s)).toList))
    with hcut
  have hrun : sanitizeToSessionName text s = if cut.length < SESSION_NAME_MIN then none
      else if matchesSessionName (String.ofList cut) then some (String.ofList cut) else none := rfl
  rw [hrun] at h
  split at h
  · cases h
  · split at h
    · rename_i hmatches
      obtain rfl := Option.some.inj h
      refine ⟨hmatches, ?_⟩
      rw [String.toList_ofList, hcut]
      exact shortened_trimmed _
    · cases h

/-- **A sanitised label is a name** in the grammar, of safe characters, without a separator at its
    end, and sanitising it again changes nothing; a name in small letters is its own sanitised form;
    and what is suggested is valid. -/
theorem sanitize_session_name (plain : PlainText text) :
    (∀ s n, sanitizeToSessionName text s = some n →
      matchesSessionName n = true ∧
      (∀ c ∈ n.toList.getLast?, isSeparator c = false) ∧
      (∀ c ∈ n.toList, isSafeChar c = true) ∧
      sanitizeToSessionName text n = some n) ∧
    (∀ s norm, validateSessionName text s = .ok norm → norm.normalized = s →
      (∀ c ∈ s.toList.getLast?, isSeparator c = false) → sanitizeToSessionName text s = some s) ∧
    (∀ inp n, suggestSessionName text inp = some n →
      ∃ norm, validateSessionName text n = .ok norm) := by
  refine ⟨fun s n h => ?_, fun s norm hvalid hlower hlast => ?_, fun inp n h => ?_⟩
  · obtain ⟨hmatches, htrim⟩ := sanitize_some h
    exact ⟨hmatches, trimmed_iff.mp htrim, safe_of_matches hmatches,
      sanitize_of_matches plain hmatches htrim⟩
  · obtain ⟨-, -, -, hform, -⟩ := validateSessionName_ok hvalid
    have hmatches : matchesSessionName s = true := hlower ▸ hform
    exact sanitize_of_matches plain hmatches (trimmed_iff.mpr hlast)
  · -- A suggestion is given only where it validates.
    obtain ⟨candidate, -, hfrom⟩ := List.exists_of_findSome?_eq_some h
    unfold suggestionFrom at hfrom
    split at hfrom
    · cases hfrom
    · split at hfrom
      · cases hfrom
      · split at hfrom
        · cases hfrom
        · split at hfrom
          · rename_i name _ hvalid
            obtain rfl := Option.some.inj hfrom
            unfold isValidSessionName at hvalid
            cases hout : validateSessionName text name with
            | ok norm => exact ⟨norm, rfl⟩
            | error e =>
              rw [hout] at hvalid
              cases hvalid
          · cases hfrom

theorem sanitize_session_name_repo :
    sanitizeToSessionName plainEnv.text "My  Repo!" = some "my-repo" ∧
    sanitizeToSessionName plainEnv.text "my-repo" = some "my-repo" := by
  have hrepo : sanitizeToSessionName plainEnv.text "My  Repo!" = some "my-repo" := by
    decide +kernel
  exact ⟨hrepo, ((sanitize_session_name plainText_plainEnv).1 _ _ hrepo).2.2.2⟩

end Proof
end XBus
