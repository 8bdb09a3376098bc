/-
  Bzinit/Passwd.lean --- the user database.

  Embeds `resolve_user` (userspace/system/bzinit/src/service.rs), which looks for a user in
  the first 1024 bytes of /system/config/passwd.  `WellFormed` and `FirstIds` say what a
  line of the file is and which line counts, for a file of any length and any bytes;
  `resolveUser_eq_some_iff` compares.
-/
import Bazzulto.Bzinit.Toml

set_option autoImplicit false

namespace Bazzulto.Bzinit

open List Option Str

variable {field text user : Str} {more : List Str} {n : Nat} {ids : UInt32 × UInt32}
  {file : List UInt8}

namespace Str

/-- `str::splitn(n, ':')`. -/
def splitn : Nat → Str → List Str
  | 0, _ => []
  | 1, text => [text]
  | n + 2, text =>
    match text.dropWhile (· ≠ ':'.toUInt8) with
    | [] => [text]
    | _ :: rest => text.takeWhile (· ≠ ':'.toUInt8) :: splitn (n + 1) rest

/-- A line without the carriage return before its line feed. -/
def stripCr (line : Str) : Str :=
  if line.getLast? = some '\r'.toUInt8 then line.dropLast else line

/-- `str::lines`: the last piece has no line feed behind it, and it is no line if it is
empty. -/
def lines (text : Str) : List Str :=
  let pieces := text.splitOn '\n'.toUInt8
  pieces.dropLast.map stripCr ++ (pieces.getLast?.filter (· ≠ [])).toList

end Str

/-- The loop body of `resolve_user`: `none` goes on to the next line. -/
def lineIds (username line : Str) : Option (UInt32 × UInt32) :=
  match line.splitn 5 with
  | name :: _pass :: uidStr :: gidStr :: _ =>
    if name ≠ username then none
    else uidStr.parseU32.bind fun uid => gidStr.parseU32.map fun gid => (uid, gid)
  | _ => none

section

variable (passwd : Option (List UInt8))

/-- `resolve_user`, with the content of the file, or `none` where it cannot be opened or
read. -/
def resolveUser (username : Str) : Option UInt32 × Option UInt32 :=
  match passwd with
  | none => (none, none)
  | some file =>
    let buf := file.take 1024
    if buf = [] then (none, none)
    else
      match fromUtf8 buf with
      | none => (none, none)
      | some content =>
        match content.lines.findSome? (lineIds username) with
        | some (uid, gid) => (some uid, some gid)
        | none => (none, none)

/-! ## The lines of the file -/

/-- The line is `user:password:uid:gid`, with anything behind another colon. -/
def WellFormed (user : Str) (ids : UInt32 × UInt32) (line : Str) : Prop :=
  ∃ password uid gid rest : Str, (∀ field ∈ [user, password, uid, gid], ':'.toUInt8 ∉ field) ∧
    (rest = [] ∨ rest.head? = some ':'.toUInt8) ∧
    line = user ++ ':'.toUInt8 ::
      (password ++ ':'.toUInt8 :: (uid ++ ':'.toUInt8 :: (gid ++ rest))) ∧
    uid.parseU32 = some ids.1 ∧ gid.parseU32 = some ids.2

/-- The first well-formed line that names the user has these ids. -/
def FirstIds (user : Str) (ids : UInt32 × UInt32) (file : List UInt8) : Prop :=
  ∃ before line after, lines file = before ++ line :: after ∧ WellFormed user ids line ∧
    ∀ earlier ∈ before, ∀ other, ¬ WellFormed user other earlier

/-! ## Fields -/

theorem dropWhile_ne_colon (h : ':'.toUInt8 ∉ field) (rest : Str) :
    (field ++ ':'.toUInt8 :: rest).dropWhile (· ≠ ':'.toUInt8) = ':'.toUInt8 :: rest ∧
      (field ++ ':'.toUInt8 :: rest).takeWhile (· ≠ ':'.toUInt8) = field := by
  have hall : ∀ byte ∈ field, (decide (byte ≠ ':'.toUInt8)) = true :=
    fun byte hbyte => decide_eq_true fun heq => h (heq ▸ hbyte)
  rw [dropWhile_append_of_pos hall, takeWhile_append_of_pos hall]
  simp

theorem splitn_field (h : ':'.toUInt8 ∉ field) (rest : Str) (n : Nat) :
    (field ++ ':'.toUInt8 :: rest : Str).splitn (n + 2) = field :: splitn (n + 1) rest := by
  rw [splitn, (dropWhile_ne_colon h rest).1, (dropWhile_ne_colon h rest).2]

theorem splitn_last (h : ':'.toUInt8 ∉ field) (n : Nat) : splitn (n + 1) field = [field] := by
  cases n with
  | zero => rfl
  | succ n =>
    have hnone : field.dropWhile (· ≠ ':'.toUInt8) = [] := by
      rw [dropWhile_eq_nil_iff]
      exact fun byte hbyte => decide_eq_true fun heq => h (heq ▸ hbyte)
    rw [splitn, hnone]

/-- A first field that is not the only one ends at a colon. -/
theorem splitn_cons {next : Str} (h : text.splitn (n + 2) = field :: next :: more) :
    ':'.toUInt8 ∉ field ∧
      ∃ rest : Str, text = field ++ ':'.toUInt8 :: rest ∧ rest.splitn (n + 1) = next :: more := by
  rw [splitn] at h
  split at h
  · cases h
  next colon rest hdrop =>
    obtain ⟨rfl, hrest⟩ := cons.inj h
    have hcolon : colon = ':'.toUInt8 := by
      have hhead := head?_dropWhile_not (fun byte => decide (byte ≠ ':'.toUInt8)) text
      rw [hdrop] at hhead
      simpa using hhead
    refine ⟨fun hmem => ?_, rest, ?_, hrest⟩
    · simpa using mem_takeWhile_imp hmem
    have hparts := takeWhile_append_dropWhile
      (p := fun byte => decide (byte ≠ ':'.toUInt8)) (l := text)
    rw [hdrop, hcolon] at hparts
    exact hparts.symm

/-- The first field, and what stands behind it. -/
theorem splitn_head (h : text.splitn (n + 2) = field :: more) :
    ':'.toUInt8 ∉ field ∧
      ∃ rest : Str, (rest = [] ∨ rest.head? = some ':'.toUInt8) ∧ text = field ++ rest := by
  cases more with
  | nil =>
    rw [splitn] at h
    split at h
    next hdrop =>
      obtain ⟨rfl, -⟩ := cons.inj h
      rw [dropWhile_eq_nil_iff] at hdrop
      refine ⟨fun hmem => ?_, [], .inl rfl, (append_nil text).symm⟩
      simpa using hdrop _ hmem
    next rest _ =>
      have hnil : splitn (n + 1) rest = [] := (cons.inj h).2
      cases n with
      | zero => cases hnil
      | succ n =>
        rw [splitn] at hnil
        split at hnil
        · cases hnil
        · cases hnil
  | cons next more =>
    obtain ⟨hfield, _, htext, -⟩ := splitn_cons h
    exact ⟨hfield, _, .inr rfl, htext⟩

theorem splitn_append {rest : Str} (h : ':'.toUInt8 ∉ field)
    (hrest : rest = [] ∨ rest.head? = some ':'.toUInt8) (n : Nat) :
    ∃ more, (field ++ rest : Str).splitn (n + 2) = field :: more := by
  rcases hrest with rfl | hhead
  · exact ⟨[], by rw [append_nil, splitn_last h]⟩
  · obtain ⟨rest, rfl⟩ := head?_eq_some_iff.mp hhead
    exact ⟨_, splitn_field h rest n⟩

/-- The loop body accepts the well-formed lines of the user, with their ids. -/
theorem lineIds_eq_some_iff {line : Str} :
    lineIds user line = some ids ↔ WellFormed user ids line := by
  constructor
  · intro h
    unfold lineIds at h
    split at h
    next password uid gid _ hsplit =>
      split at h
      · cases h
      rename_i hname
      rw [not_not] at hname
      subst hname
      obtain ⟨hname, tail, rfl, hpasswords⟩ := splitn_cons hsplit
      obtain ⟨hpassword, tail, rfl, huids⟩ := splitn_cons hpasswords
      obtain ⟨huid, _, rfl, hgids⟩ := splitn_cons huids
      obtain ⟨hgid, rest, hrest, rfl⟩ := splitn_head hgids
      obtain ⟨_, huidValue, h⟩ := bind_eq_some_iff.mp h
      obtain ⟨_, hgidValue, rfl⟩ := map_eq_some_iff.mp h
      refine ⟨password, uid, gid, rest, ?_, hrest, rfl, huidValue, hgidValue⟩
      simp only [forall_mem_cons]
      exact ⟨hname, hpassword, huid, hgid, fun _ hmem => absurd hmem not_mem_nil⟩
    · cases h
  · rintro ⟨_, _, _, _, hfields, hrest, rfl, huid, hgid⟩
    simp only [forall_mem_cons] at hfields
    obtain ⟨hname, hpassword, huid', hgid', -⟩ := hfields
    obtain ⟨_, hmore⟩ := splitn_append hgid' hrest 0
    unfold lineIds
    rw [splitn_field hname, splitn_field hpassword, splitn_field huid', hmore]
    dsimp only
    rw [if_neg (not_not.mpr rfl), huid, hgid]
    rfl

/-- The loop finds the first of them. -/
theorem findSome_lineIds_iff :
    (lines file).findSome? (lineIds user) = some ids ↔ FirstIds user ids file := by
  rw [findSome?_eq_some_iff]
  constructor
  · rintro ⟨before, line, after, hlines, hline, hbefore⟩
    refine ⟨before, line, after, hlines, lineIds_eq_some_iff.mp hline, ?_⟩
    intro earlier hearlier other hother
    have hnone := hbefore earlier hearlier
    rw [lineIds_eq_some_iff.mpr hother] at hnone
    cases hnone
  · rintro ⟨before, line, after, hlines, hline, hbefore⟩
    refine ⟨before, line, after, hlines, lineIds_eq_some_iff.mpr hline, ?_⟩
    intro earlier hearlier
    by_contra hsome
    obtain ⟨other, hother⟩ := ne_none_iff_exists'.mp hsome
    exact hbefore earlier hearlier other (lineIds_eq_some_iff.mp hother)

theorem FirstIds.unique {other : UInt32 × UInt32} (h : FirstIds user ids file)
    (h' : FirstIds user other file) : ids = other := by
  have hsame := (findSome_lineIds_iff.mpr h).symm.trans (findSome_lineIds_iff.mpr h')
  exact some.inj hsame

/-! ## What `resolve_user` finds -/

/-- The file can be read, its first 1024 bytes are UTF-8, and their first well-formed line
for the user has these ids. -/
def Resolves (user : Str) (ids : UInt32 × UInt32) : Prop :=
  ∃ file, passwd = some file ∧ (fromUtf8 (file.take 1024)).isSome = true ∧
    FirstIds user ids (file.take 1024)

theorem fromUtf8_eq_some {bytes : List UInt8} (h : fromUtf8 bytes = some text) :
    text = bytes := by
  replace h := (ite_none_right_eq_some.mp h).2
  exact (some.inj h).symm

/-- `resolve_user` gives both ids or neither. -/
theorem resolveUser_cases (user : Str) :
    (∃ ids, Resolves passwd user ids ∧ resolveUser passwd user = (some ids.1, some ids.2)) ∨
      (∀ ids, ¬ Resolves passwd user ids) ∧ resolveUser passwd user = (none, none) := by
  cases passwd with
  | none =>
    refine .inr ⟨?_, rfl⟩
    rintro ids ⟨file, hfile, -⟩
    cases hfile
  | some file =>
    unfold resolveUser
    dsimp only
    split
    next hempty =>
      refine .inr ⟨?_, rfl⟩
      rintro ids ⟨file', hfile, -, hfirst⟩
      cases hfile
      rw [hempty] at hfirst
      obtain ⟨before, _, _, hlines, -⟩ := hfirst
      cases before <;> cases hlines
    split
    next hinvalid =>
      refine .inr ⟨?_, rfl⟩
      rintro ids ⟨file', hfile, hvalid, -⟩
      cases hfile
      rw [hinvalid] at hvalid
      cases hvalid
    rename_i content hvalid
    rw [fromUtf8_eq_some hvalid]
    split
    next uid gid hfound =>
      refine .inl ⟨(uid, gid), ⟨file, rfl, by rw [hvalid]; rfl, ?_⟩, rfl⟩
      exact findSome_lineIds_iff.mp hfound
    next hnone =>
      refine .inr ⟨?_, rfl⟩
      rintro _ ⟨_, hfile, -, hfirst⟩
      cases hfile
      rw [findSome_lineIds_iff.mpr hfirst] at hnone
      cases hnone

end

end Bazzulto.Bzinit
