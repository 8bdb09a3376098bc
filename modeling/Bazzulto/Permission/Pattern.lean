/-
  Permission/Pattern.lean --- path patterns and the permission check.

  Embeds `PathPattern`, `permission_allows`, `is_impossible_namespace`,
  `ActionPermission` and the tier dispatch of `resolve_exec_permissions`
  (kernel/src/permission/mod.rs).  A Rust `str` is a list of characters.  `Denotes` says
  what a pattern stands for, by the ways to take it and a path apart.
-/
import Mathlib.Data.List.Basic

set_option autoImplicit false

namespace Bazzulto

/-- A Rust `str`. -/
abbrev Text := List Char

namespace Permission

/-! ## Patterns -/

structure PathPattern where
  raw : Text
  deriving DecidableEq, Repr

def PathPattern.wildcard : PathPattern := ⟨"//:**".toList⟩

def stripSuffix (suffix text : Text) : Option Text :=
  if suffix.isSuffixOf text then some (text.take (text.length - suffix.length)) else none

/-- `PathPattern::matches`. -/
def PathPattern.matchesPath (pattern : PathPattern) (canonicalPath : Text) : Bool :=
  if pattern.raw = "//:**".toList ∨ pattern.raw = "//**".toList then true
  else
    match stripSuffix "/**".toList pattern.raw with
    | some stem =>
      canonicalPath = stem ||
        (stem.isPrefixOf canonicalPath && "/".toList.isPrefixOf (canonicalPath.drop stem.length))
    | none =>
      match stripSuffix ":**".toList pattern.raw with
      | some stem => (stem ++ ":".toList).isPrefixOf canonicalPath
      | none =>
        match stripSuffix "/*".toList pattern.raw with
        | some stem =>
          let rest := canonicalPath.drop stem.length
          let childName := rest.drop 1
          stem.isPrefixOf canonicalPath && "/".toList.isPrefixOf rest &&
            !childName.isEmpty && !childName.contains '/'
        | none => pattern.raw = canonicalPath

/-- `permission_allows`: a process without patterns may access everything. -/
def permissionAllows (granted : List PathPattern) (canonicalPath : Text) : Bool :=
  if granted.isEmpty then true
  else granted.any fun pattern => pattern.matchesPath canonicalPath

/-! ## What patterns mean -/

section Meaning

open List PathPattern

variable {stem path raw : Text}

/-- What a pattern stands for. -/
inductive Denotes : Text → Text → Prop
  | self (path : Text) : Denotes path path
  | all (path : Text) : Denotes (['/', '/'] ++ ":**".toList) path
  | child (stem name : Text) (hne : name ≠ []) (hslash : '/' ∉ name) :
    Denotes (stem ++ "/*".toList) (stem ++ '/' :: name)
  | root (stem : Text) : Denotes (stem ++ "/**".toList) stem
  | below (stem rest : Text) : Denotes (stem ++ "/**".toList) (stem ++ '/' :: rest)
  | scheme (stem rest : Text) : Denotes (stem ++ ":**".toList) (stem ++ ':' :: rest)

/-- Canonical paths begin with two slashes, as `sys_open` tests. -/
def Canonical (path : Text) : Prop := "//".toList <+: path

theorem eq_append_of_stripSuffix {suffix : Text} (h : stripSuffix suffix raw = some stem) :
    raw = stem ++ suffix := by
  unfold stripSuffix at h
  split at h
  next hsuffix =>
    obtain ⟨front, rfl⟩ := isSuffixOf_iff_suffix.mp hsuffix
    simpa using h
  · cases h

theorem eq_append_of_prefix_drop {mark : Char}
    (h : (stem.isPrefixOf path && [mark].isPrefixOf (path.drop stem.length)) = true) :
    ∃ rest, path = stem ++ mark :: rest := by
  simp only [Bool.and_eq_true, isPrefixOf_iff_prefix] at h
  obtain ⟨⟨behind, rfl⟩, rest, hrest⟩ := h
  rw [drop_left] at hrest
  exact ⟨rest, by rw [← hrest]; rfl⟩

theorem denotes_of_matchesPath {pattern : PathPattern} (hcanonical : Canonical path)
    (h : pattern.matchesPath path = true) : Denotes pattern.raw path := by
  unfold matchesPath at h
  split at h
  next hraw =>
    obtain hraw | hraw := hraw <;> rw [hraw]
    · exact .all path
    -- `//**` has its own test: below the stem `/` lies every canonical path
    · obtain ⟨rest, rfl⟩ := hcanonical
      exact .below ['/'] rest
  split at h
  next stem hstem =>
    rw [eq_append_of_stripSuffix hstem]
    rw [Bool.or_eq_true, decide_eq_true_iff] at h
    obtain rfl | h := h
    · exact .root path
    · obtain ⟨rest, rfl⟩ := eq_append_of_prefix_drop h
      exact .below stem rest
  split at h
  next stem hstem =>
    rw [eq_append_of_stripSuffix hstem]
    obtain ⟨rest, rfl⟩ := isPrefixOf_iff_prefix.mp h
    rw [append_assoc]
    exact .scheme stem rest
  split at h
  next stem hstem =>
    rw [eq_append_of_stripSuffix hstem]
    dsimp only at h
    rw [Bool.and_eq_true, Bool.and_eq_true] at h
    obtain ⟨name, rfl⟩ := eq_append_of_prefix_drop h.1.1
    obtain ⟨⟨-, hne⟩, hslash⟩ := h
    rw [drop_left] at hne hslash
    exact .child stem name (by simpa using hne) (by simpa using hslash)
  · rw [of_decide_eq_true h]
    exact .self path

theorem matchesPath_of_denotes {pattern : PathPattern} (h : Denotes pattern.raw path) :
    pattern.matchesPath path = true := by
  obtain ⟨raw⟩ := pattern
  cases h with
  | self =>
    -- a pattern with a wildcard matches its own text as well
    unfold matchesPath
    split
    · rfl
    split
    next hstem =>
      obtain rfl := eq_append_of_stripSuffix hstem
      simp
    split
    next hstem =>
      obtain rfl := eq_append_of_stripSuffix hstem
      simp
    split
    next hstem =>
      obtain rfl := eq_append_of_stripSuffix hstem
      simp
    · exact decide_eq_true rfl
  | all => rfl
  | child stem name hne hslash =>
    simp [matchesPath, stripSuffix, isSuffixOf, hne, hslash]
  | root | below | scheme => simp [matchesPath, stripSuffix, isSuffixOf]

/-- A path that a pattern stands for is its stem, or goes on with the character that the
stem stops at. -/
theorem Denotes.continues {mark : Char} {stars : Text} (hmark : mark ≠ '*')
    (hstars : stars ∈ [[], ['*'], ['*', '*']]) (h : Denotes (stem ++ mark :: stars) path) :
    path = stem ∨ stem ++ mark :: stars = "//:**".toList ∨ ∃ rest, path = stem ++ mark :: rest := by
  generalize hraw : stem ++ mark :: stars = raw at h
  have hreverse := congrArg reverse hraw
  cases h with
  | self => exact .inr (.inr ⟨stars, hraw.symm⟩)
  | all => exact .inr (.inl rfl)
  | child | root | below | scheme =>
    simp only [mem_cons, not_mem_nil, or_false] at hstars
    obtain rfl | rfl | rfl := hstars
    all_goals simp [hmark] at hreverse
    all_goals simp [hreverse]

/-- `matches` is the meaning of the pattern, for every canonical path.  So no pattern
matches a path that goes on behind its stem in another way, the children are among what
lies below, and more patterns allow more. -/
theorem matchesPath_meaning {path : Text} (hcanonical : Canonical path) :
    (∀ pattern : PathPattern, pattern.matchesPath path = true ↔ Denotes pattern.raw path) ∧
      (∀ (stem rest stars : Text) (mark : Char), mark ≠ '*' → stars ∈ [[], ['*'], ['*', '*']] →
        stem ++ mark :: stars ≠ "//:**".toList → path = stem ++ rest → rest ≠ [] →
        rest.head? ≠ some mark → PathPattern.matchesPath ⟨stem ++ mark :: stars⟩ path = false) ∧
      (∀ stem : Text, PathPattern.matchesPath ⟨stem ++ "/*".toList⟩ path = true →
        PathPattern.matchesPath ⟨stem ++ "/**".toList⟩ path = true) ∧
      ∀ granted larger : List PathPattern, granted ≠ [] → granted ⊆ larger →
        permissionAllows granted path = true → permissionAllows larger path = true := by
  have hmeaning : ∀ pattern : PathPattern, pattern.matchesPath path = true ↔
      Denotes pattern.raw path :=
    fun _ => ⟨denotes_of_matchesPath hcanonical, matchesPath_of_denotes⟩
  refine ⟨hmeaning, ?_, ?_, ?_⟩
  · intro stem rest stars mark hmark hstars hall hpath hne hhead
    rw [← Bool.not_eq_true, hmeaning]
    intro h
    subst hpath
    obtain hself | hraw | ⟨_, hrest⟩ := h.continues hmark hstars
    · exact hne (by simpa using hself)
    · exact hall hraw
    · rw [append_cancel_left hrest] at hhead
      exact hhead rfl
  · intro stem h
    have hchild : Denotes (stem ++ '/' :: ['*']) path := (hmeaning _).mp h
    obtain rfl | hraw | ⟨rest, rfl⟩ := hchild.continues (by decide) (by decide)
    · exact (hmeaning _).mpr (.root _)
    · simpa using congrArg reverse hraw
    · exact (hmeaning _).mpr (.below stem rest)
  · intro granted larger hne hsub hallows
    have hlarger : larger ≠ [] := fun h => hne (subset_nil.mp (h ▸ hsub))
    simp only [permissionAllows, List.isEmpty_iff, hne, hlarger, if_false, any_eq_true] at hallows ⊢
    obtain ⟨pattern, hmem, hmatch⟩ := hallows
    exact ⟨pattern, hsub hmem, hmatch⟩

theorem matchesPath_meaning_user :
    PathPattern.matchesPath ⟨"//user:/**".toList⟩ "//user:/a".toList = true :=
  (matchesPath_meaning ⟨"user:/a".toList, rfl⟩).2.2.1 "//user:".toList (by decide)

end Meaning

inductive ApprovalLevel where
  | silent
  | consent
  | authenticated
  | impossible
  deriving DecidableEq, Repr

def namespaceSensitivity : List (Text × ApprovalLevel) :=
  [("//sys:policy:".toList, .impossible), ("//sys:perm:".toList, .impossible),
   ("//system:/bin/".toList, .impossible),
   ("//system:/sbin/".toList, .impossible),
   ("//sys:".toList, .authenticated),
   ("//user:".toList, .consent),
   ("//net:".toList, .consent),
   ("//ram:".toList, .consent),
   ("//dev:".toList, .consent)]

def isImpossibleNamespace (canonicalPath : Text) : Bool :=
  namespaceSensitivity.any fun entry =>
    entry.2 = .impossible && entry.1.isPrefixOf canonicalPath

/-! ## Actions -/

inductive ActionPermission where
  | mountFilesystem
  | loadKernelDriver
  | modifyNetworkConfig
  | installPackage
  | modifyKernelParams
  | grantPermissions
  | registerPermissiond
  deriving DecidableEq, Repr

/-! ## Tiers -/

/-- `is_system_binary_path`: the Tier-1 paths. -/
def isSystemBinaryPath (path : Text) : Bool :=
  "//system:/bin/".toList.isPrefixOf path || "//system:/sbin/".toList.isPrefixOf path ||
    "/system/bin/".toList.isPrefixOf path || "/system/sbin/".toList.isPrefixOf path

/-- The sets of a Tier-1 image. -/
def systemPermissions : List PathPattern × List ActionPermission :=
  ([.wildcard], [.mountFilesystem, .loadKernelDriver, .modifyNetworkConfig, .installPackage,
    .modifyKernelParams, .registerPermissiond])

/-- `resolve_exec_permissions`: `none` leaves the sets of the process as they
are. -/
def resolveExecPermissions (canonicalPath : Text) (hasPermissionsSection : Bool)
    (parentPermissions : List PathPattern) (parentActions : List ActionPermission) :
    Option (List PathPattern × List ActionPermission) :=
  if isSystemBinaryPath canonicalPath then some systemPermissions
  else if hasPermissionsSection then none
  else some (parentPermissions, parentActions)

end Permission
end Bazzulto
