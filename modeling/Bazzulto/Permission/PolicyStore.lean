/-
  Permission/PolicyStore.lean --- which policies a lookup for one user finds.

  Embeds `PolicyStore` and `format_u32` (kernel/src/permission/policy_store.rs).  A policy of
  one user is kept under `{sha256_hex}:{uid}`.  `format_u32` returns what stands behind the
  last position it has written, so of ten digits the first is lost.
-/
import Mathlib.Data.Nat.Digits.Lemmas
import Bazzulto.Permission.Pattern

set_option autoImplicit false

namespace Bazzulto.Permission

open List

/-! ## The store -/

/-- `PolicyEntry`: the permissions that it grants. -/
abbrev PolicyEntry := List PathPattern

/-- `PolicyStore`: the map of its `BTreeMap`. -/
structure PolicyStore where
  entries : Text → Option PolicyEntry

/-- The 64 hexadecimal digits of a SHA-256 digest. -/
abbrev HashHex := { text : Text // text.length = 64 }

def PolicyStore.insert (store : PolicyStore) (key : Text) (entry : PolicyEntry) : PolicyStore :=
  ⟨Function.update store.entries key (some entry)⟩

/-- The loop of `format_u32`: the position it ends at and the buffer. -/
def formatLoop : Nat → Nat → Text → Nat × Text
  | 0, val, buf => (0, if val = 0 then buf else buf.set 0 (val % 10).digitChar)
  | i + 1, val, buf =>
    if val = 0 then (i + 1, buf)
    else formatLoop i (val / 10) (buf.set (i + 1) (val % 10).digitChar)

/-- `format_u32`; what is written is ASCII, so `from_utf8` does not fail. -/
def formatU32 (val : Nat) : Text :=
  if val = 0 then "0".toList
  else
    let (i, buf) := formatLoop 9 val (replicate 10 '\x00')
    buf.drop (i + 1)

def PolicyStore.lookupForUser (store : PolicyStore) (hash : HashHex) (uid : UInt32) :
    Option PolicyEntry :=
  store.entries (hash.val ++ ':' :: formatU32 uid.toNat)

/-- The documented key of a policy of one user. -/
def userKey (hash : HashHex) (uid : UInt32) : Text := hash.val ++ ':' :: Nat.toDigits 10 uid.toNat

/-! ## What the loop writes -/

/-- A number with one digit more than the loop has room for loses its first. -/
theorem formatLoop_drop {i val : Nat} {buf : Text} (positive : 0 < val) (inside : i < buf.length)
    (fits : val < 10 ^ (i + 1)) :
    (formatLoop i val buf).2.drop ((formatLoop i val buf).1 + 1) =
      (if val < 10 ^ i then Nat.toDigits 10 val else (Nat.toDigits 10 val).tail) ++
        buf.drop (i + 1) := by
  induction i generalizing val buf with
  | zero =>
    rw [Nat.toDigits_of_lt_base (by simpa using fits)]
    simp [formatLoop, positive.ne', drop_set_of_lt]
  | succ i ih =>
    rw [formatLoop, if_neg positive.ne']
    have written : (buf.set (i + 1) (val % 10).digitChar).drop (i + 1) =
        (val % 10).digitChar :: buf.drop (i + 2) := by
      rw [drop_set, if_neg (by simp), Nat.sub_self, drop_eq_getElem_cons inside,
        set_cons_zero]
    rcases Nat.eq_zero_or_pos (val / 10) with last | more
    · have digit : val < 10 := by omega
      have stop : ∀ rest, formatLoop i 0 rest = (i, rest) := by
        cases i <;> simp [formatLoop]
      rw [last, stop, written, if_pos (digit.trans_le (Nat.le_pow (by simp))),
        Nat.toDigits_of_lt_base digit, Nat.mod_eq_of_lt digit, singleton_append]
    · have room : val / 10 < 10 ^ i ↔ val < 10 ^ (i + 1) := by
        rw [Nat.div_lt_iff_lt_mul (by simp), pow_succ]
      have nonempty : Nat.toDigits 10 (val / 10) ≠ [] := Nat.toDigits_ne_nil
      rw [ih more (by simp; omega) (by omega), written, append_cons,
        Nat.toDigits_of_base_le (by simp) (show 10 ≤ val by omega),
        tail_append_of_ne_nil nonempty]
      simp only [room]
      split_ifs <;> rfl

theorem formatU32_eq {val : Nat} (fits : val < 10 ^ 10) :
    formatU32 val =
      if val < 10 ^ 9 then Nat.toDigits 10 val else (Nat.toDigits 10 val).tail := by
  rcases Nat.eq_zero_or_pos val with rfl | positive
  · rfl
  · rw [formatU32, if_neg positive.ne']
    exact (formatLoop_drop positive (by simp) fits).trans (append_nil _)

/-! ## Who finds a policy -/

/-- After a policy has been stored for one user of one binary, a lookup finds it exactly where
it asks for both; all other lookups find what they found before. -/
def FoundByItsUser (h k : HashHex) (u v : UInt32) : Prop :=
  ∀ (store : PolicyStore) (entry : PolicyEntry),
    (store.insert (userKey h u) entry).lookupForUser k v =
      if h = k ∧ u = v then some entry else store.lookupForUser k v

theorem lookupForUser_insert (store : PolicyStore) (entry : PolicyEntry) (h k : HashHex)
    (u v : UInt32) :
    (store.insert (userKey h u) entry).lookupForUser k v =
      if h = k ∧ Nat.toDigits 10 u.toNat = formatU32 v.toNat then some entry
      else store.lookupForUser k v := by
  have same : k.val ++ ':' :: formatU32 v.toNat = userKey h u ↔
      h = k ∧ Nat.toDigits 10 u.toNat = formatU32 v.toNat := by
    constructor
    · intro same
      obtain ⟨hash, rest⟩ := append_inj same (by rw [h.2, k.2])
      exact ⟨(Subtype.ext hash).symm, (cons_inj_right _).mp rest.symm⟩
    · rintro ⟨rfl, equal⟩
      rw [userKey, equal]
  simp [PolicyStore.lookupForUser, PolicyStore.insert, Function.update_apply, same]

theorem foundByItsUser_iff_agree (h k : HashHex) (u v : UInt32) :
    FoundByItsUser h k u v ↔ (h = k → (Nat.toDigits 10 u.toNat = formatU32 v.toNat ↔ u = v)) := by
  simp only [FoundByItsUser, lookupForUser_insert]
  constructor
  · intro found same
    have alone := found ⟨fun _ => none⟩ []
    simp only [PolicyStore.lookupForUser] at alone
    split_ifs at alone <;> simp_all
  · intro agree _ _
    by_cases same : h = k
    · simp [agree same]
    · simp [same]

/-- A user id of ten digits misses its own policies, and finds those of the user id that its
last nine digits write. -/
theorem foundByItsUser_iff (h k : HashHex) (u v : UInt32) :
    FoundByItsUser h k u v ↔ h ≠ k ∨ v.toNat < 10 ^ 9 ∨
      u ≠ v ∧ Nat.toDigits 10 u.toNat ≠ (Nat.toDigits 10 v.toNat).tail := by
  rw [foundByItsUser_iff_agree, formatU32_eq (v.toNat_lt.trans (by simp))]
  by_cases short : v.toNat < 10 ^ 9
  · have injective : Nat.toDigits 10 u.toNat = Nat.toDigits 10 v.toNat ↔ u = v := by
      refine ⟨fun same => UInt32.toNat_inj.mp ?_, fun same => by rw [same]⟩
      simpa using congrArg (Nat.ofDigitChars 10 · 0) same
    rw [if_pos short, injective]
    simp only [short, true_or, or_true, implies_true]
  · simp only [short, ← imp_iff_not_or]
    rcases eq_or_ne u v with rfl | other
    · have shorter : Nat.toDigits 10 u.toNat ≠ (Nat.toDigits 10 u.toNat).tail := fun same =>
        ne_cons_self (same.symm.trans (cons_head_tail Nat.toDigits_ne_nil).symm)
      simp [shorter]
    · simp [other]

/-- The user 1123456789 is given what was granted to the user 123456789, and the user
4000000000 does not find its own policy. -/
theorem lookupForUser_drops_first_digit :
    ∃ h : HashHex, ¬ FoundByItsUser h h 123456789 1123456789 ∧
      ¬ FoundByItsUser h h 4000000000 4000000000 := by
  refine ⟨⟨replicate 64 '0', rfl⟩, ?_, ?_⟩ <;> rw [foundByItsUser_iff_agree] <;> decide

end Bazzulto.Permission
