/-
  Vfs/Path.lean --- path strings.

  Embeds the user strings of the system calls (`copy_user_cstr`,
  kernel/src/systemcalls/mod.rs), `normalize_cwd_path` and `resolve_to_absolute`
  (kernel/src/systemcalls/vfs.rs), and the component lists that the mount table
  walks (kernel/src/fs/mount.rs).  Every absolute path that the calls build
  themselves is `absolutePath` of a list of ordinary components.
-/
import Bazzulto.Permission.Pattern
import Bazzulto.Process.Syscall

set_option autoImplicit false

namespace Bazzulto.Vfs

open List Option

variable {bytes : List UInt8} {text path component item : Text} {items parts : List Text}
  {character : Char}

/-! ## User strings -/

/-- A string argument: its address, and the bytes before its NUL. -/
structure UserString where
  address : Nat
  bytes : List UInt8
  no_nul : 0 ∉ bytes
  deriving DecidableEq, Repr

/-- `copy_user_cstr`: `none` for an invalid pointer or more than 510 bytes. -/
def copyUserCstr (string : UserString) : Option (List UInt8) :=
  if string.address < 4096 ∨ userAddrLimit.toNat ≤ string.address then none
  else if 511 ≤ string.bytes.length then none
  else some string.bytes

/-- The string lies in user memory and fits the buffer of `copy_user_cstr`. -/
def UserString.Readable (string : UserString) : Prop :=
  (4096 ≤ string.address ∧ string.address < userAddrLimit.toNat) ∧ string.bytes.length < 511

variable {string : UserString}

theorem copyUserCstr_eq_some_iff :
    copyUserCstr string = some bytes ↔ string.Readable ∧ string.bytes = bytes := by
  unfold copyUserCstr UserString.Readable
  split
  · exact ⟨fun h => absurd h (by simp), fun h => by omega⟩
  · split
    · exact ⟨fun h => absurd h (by simp), fun h => by omega⟩
    · exact ⟨fun h => ⟨by omega, some.inj h⟩, fun h => congrArg some h.2⟩

def fromUtf8 (bytes : List UInt8) : Option Text :=
  (String.fromUTF8? ⟨bytes.toArray⟩).map String.toList

/-- The path argument of a call: `none` is the calls' `EINVAL`. -/
def pathArgument (string : UserString) : Option Text :=
  (copyUserCstr string).bind fromUtf8

/-- The bytes of a text. -/
def toUtf8 (text : Text) : List UInt8 := text.flatMap String.utf8EncodeChar

/-- `str::len`. -/
def utf8Length (text : Text) : Nat := (text.map Char.utf8Size).sum

/-- Decoding inverts encoding, and accepts nothing else. -/
theorem fromUtf8_eq_some_iff : fromUtf8 bytes = some text ↔ bytes = toUtf8 text := by
  have hbytes : (⟨bytes.toArray⟩ : ByteArray) = text.utf8Encode ↔ bytes = toUtf8 text := by
    rw [ByteArray.ext_iff, List.utf8Encode, data_toByteArray]
    exact ⟨fun h => congrArg Array.toList h, fun h => congrArg List.toArray h⟩
  rw [← hbytes, fromUtf8, String.fromUTF8?]
  constructor
  · intro hdecode
    split at hdecode
    · obtain ⟨string, hstring, rfl⟩ := map_eq_some_iff.mp hdecode
      have harray : string.toByteArray = ⟨bytes.toArray⟩ := (some.inj hstring) ▸ rfl
      rw [← harray, ← String.toByteArray_ofList, String.ofList_toList]
    · cases hdecode
  · intro hencode
    have hvalid : (⟨bytes.toArray⟩ : ByteArray).IsValidUTF8 :=
      hencode ▸ ByteArray.isValidUTF8_utf8Encode
    rw [dif_pos hvalid, map_some]
    have hstring : String.fromUTF8 ⟨bytes.toArray⟩ hvalid = String.ofList text :=
      String.toByteArray_inj.mp (hencode.trans String.toByteArray_ofList.symm)
    rw [hstring, String.toList_ofList]

theorem length_toUtf8 (text : Text) : (toUtf8 text).length = utf8Length text := by
  rw [toUtf8, utf8Length]
  simp

theorem pathArgument_eq_some_iff :
    pathArgument string = some text ↔ (4096 ≤ string.address ∧ string.address < userAddrLimit.toNat) ∧
        utf8Length text < 511 ∧ string.bytes = toUtf8 text := by
  simp only [pathArgument, bind_eq_some_iff, copyUserCstr_eq_some_iff, fromUtf8_eq_some_iff]
  constructor
  · rintro ⟨_, ⟨⟨haddress, hshort⟩, rfl⟩, hbytes⟩
    exact ⟨haddress, by rwa [hbytes, length_toUtf8] at hshort, hbytes⟩
  · rintro ⟨haddress, _, hbytes⟩
    exact ⟨_, ⟨⟨haddress, by rwa [hbytes, length_toUtf8]⟩, rfl⟩, hbytes⟩

/-! ## Components -/

/-- `path.split('/')`. -/
def splitPath (path : Text) : List Text := path.splitOn '/'

/-- The components a path is walked along: neither empty nor `.`. -/
def components (path : Text) : List Text :=
  (splitPath path).filter fun component => !component.isEmpty && component ≠ ['.']

/-- `/` and the components joined by `/`. -/
def absolutePath (items : List Text) : Text := '/' :: ['/'].intercalate items

/-- The loop body of `normalize_cwd_path`. -/
def pushComponent (items : List Text) (component : Text) : List Text :=
  if component = [] ∨ component = ['.'] then items
  else if component = ['.', '.'] then items.dropLast
  else items ++ [component]

def normalizeCwdPath (path : Text) : Text :=
  let items := (splitPath path).foldl pushComponent []
  if items.isEmpty then ['/'] else absolutePath items

/-- `text.trim_end_matches('/')`. -/
def trimEndSlashes (text : Text) : Text :=
  (text.reverse.dropWhile fun character => character = '/').reverse

def resolveToAbsolute (cwdPath path : Text) : Text :=
  if ['/'].isPrefixOf path then normalizeCwdPath path
  else normalizeCwdPath (trimEndSlashes cwdPath ++ ['/'] ++ path)

/-! ## Ordinary components -/

/-- A component that names a directory entry. -/
structure Ordinary (component : Text) : Prop where
  ne_nil : component ≠ []
  ne_dot : component ≠ ['.']
  ne_dotdot : component ≠ ['.', '.']
  no_slash : '/' ∉ component

theorem splitPath_slash (path : Text) : splitPath ('/' :: path) = [] :: splitPath path := by
  rfl

theorem splitPath_ne_nil (path : Text) : splitPath path ≠ [] := splitOn_ne_nil _ _

theorem not_mem_of_mem_splitPath (hmem : component ∈ splitPath path) : '/' ∉ component := by
  induction path generalizing component with
  | nil =>
    rw [splitPath, splitOn_nil, mem_singleton] at hmem
    simp [hmem]
  | cons character rest ih =>
    unfold splitPath List.splitOn at hmem ih
    rw [splitOnP_cons_eq_if_modifyHead] at hmem
    split at hmem
    · rcases mem_cons.mp hmem with rfl | hrest
      · exact not_mem_nil
      · exact ih hrest
    next hne =>
      obtain ⟨_, _, hsplit⟩ := exists_cons_of_ne_nil (splitPath_ne_nil rest)
      unfold splitPath List.splitOn at hsplit
      rw [hsplit] at hmem ih
      rcases mem_cons.mp hmem with rfl | hrest
      · intro hslash
        rcases mem_cons.mp hslash with rfl | hslash
        · exact hne (beq_self_eq_true _)
        · exact ih mem_cons_self hslash
      · exact ih (mem_cons_of_mem _ hrest)

theorem pushComponent_ordinary (hitems : ∀ item ∈ items, Ordinary item) (hslash : '/' ∉ component) :
    ∀ item ∈ pushComponent items component, Ordinary item := by
  unfold pushComponent
  split
  · exact hitems
  next hskip =>
    split
    · exact fun item hitem => hitems item (dropLast_subset _ hitem)
    next hdotdot =>
      intro item hitem
      rcases mem_append.mp hitem with hitem | hitem
      · exact hitems item hitem
      · obtain rfl := mem_singleton.mp hitem
        exact ⟨fun h => hskip (.inl h), fun h => hskip (.inr h), hdotdot, hslash⟩

theorem foldl_pushComponent_ordinary (hparts : ∀ part ∈ parts, '/' ∉ part)
    (hitems : ∀ item ∈ items, Ordinary item) :
    ∀ item ∈ parts.foldl pushComponent items, Ordinary item := by
  induction parts generalizing items with
  | nil => exact hitems
  | cons part rest ih =>
    refine ih (fun p hp => hparts p (mem_cons_of_mem _ hp)) ?_
    exact pushComponent_ordinary hitems (hparts part mem_cons_self)

theorem normalizeCwdPath_eq_absolutePath (path : Text) :
    ∃ items, (∀ item ∈ items, Ordinary item) ∧ normalizeCwdPath path = absolutePath items := by
  refine ⟨(splitPath path).foldl pushComponent [], ?_, ?_⟩
  · exact foldl_pushComponent_ordinary (fun _ => not_mem_of_mem_splitPath) (by simp)
  · unfold normalizeCwdPath
    cases (splitPath path).foldl pushComponent [] <;> rfl

/-! ## Paths of ordinary components -/

theorem splitPath_absolutePath (hitems : ∀ item ∈ items, Ordinary item) (hne : items ≠ []) :
    splitPath (absolutePath items) = [] :: items := by
  rw [absolutePath, splitPath_slash, splitPath,
    splitOn_intercalate '/' (fun item hitem => (hitems item hitem).no_slash) hne]

theorem components_absolutePath (hitems : ∀ item ∈ items, Ordinary item) :
    components (absolutePath items) = items := by
  obtain rfl | hne := eq_or_ne items []
  · rfl
  rw [components, splitPath_absolutePath hitems hne, filter_cons_of_neg (by simp), filter_eq_self]
  intro item hitem
  have hordinary := hitems item hitem
  simp [hordinary.ne_nil, hordinary.ne_dot]

theorem foldl_pushComponent_of_ordinary (hparts : ∀ part ∈ parts, Ordinary part)
    (items : List Text) : parts.foldl pushComponent items = items ++ parts := by
  induction parts generalizing items with
  | nil => simp
  | cons part rest ih =>
    have hordinary := hparts part mem_cons_self
    have hpush : pushComponent items part = items ++ [part] := by
      simp [pushComponent, hordinary.ne_nil, hordinary.ne_dot, hordinary.ne_dotdot]
    rw [foldl_cons, hpush, ih fun p hp => hparts p (mem_cons_of_mem _ hp),
      append_assoc, singleton_append]

theorem normalizeCwdPath_absolutePath (hitems : ∀ item ∈ items, Ordinary item) :
    normalizeCwdPath (absolutePath items) = absolutePath items := by
  obtain rfl | hne := eq_or_ne items []
  · rfl
  have hfold : (splitPath (absolutePath items)).foldl pushComponent [] = items := by
    rw [splitPath_absolutePath hitems hne]
    exact (foldl_pushComponent_of_ordinary hitems _).trans (nil_append _)
  rw [normalizeCwdPath, hfold, if_neg (by simpa using hne)]

theorem absolutePath_not_doubleSlash (hitems : ∀ item ∈ items, item ≠ [] ∧ '/' ∉ item) :
    ['/', '/'].isPrefixOf (absolutePath items) = false := by
  cases items with
  | nil => rfl
  | cons item rest =>
    obtain ⟨hne, hslash⟩ := hitems item mem_cons_self
    obtain ⟨character, _, rfl⟩ := exists_cons_of_ne_nil hne
    have hchar : '/' ≠ character := fun h => hslash (h ▸ mem_cons_self)
    cases rest with
    | nil | cons => simp [absolutePath, List.isPrefixOf, hchar]

theorem Ordinary.shaped (hitems : ∀ item ∈ items, Ordinary item) :
    ∀ item ∈ items, item ≠ [] ∧ '/' ∉ item :=
  fun item hitem => ⟨(hitems item hitem).ne_nil, (hitems item hitem).no_slash⟩

theorem mem_components (hitem : item ∈ components path) : item ≠ [] ∧ '/' ∉ item := by
  obtain ⟨hsplit, hkeep⟩ := mem_filter.mp hitem
  refine ⟨?_, not_mem_of_mem_splitPath hsplit⟩
  rintro rfl
  cases hkeep

/-! ## Sizes -/

/-- The bytes of `/` and a component, over a list of components. -/
def weight (items : List Text) : Nat := (items.map fun item => utf8Length item + 1).sum

theorem utf8Length_slash (path : Text) : utf8Length ('/' :: path) = utf8Length path + 1 := by
  have hsize : Char.utf8Size '/' = 1 := by decide
  rw [utf8Length, map_cons, sum_cons, utf8Length]
  omega

theorem utf8Length_absolutePath (hne : items ≠ []) :
    utf8Length (absolutePath items) = weight items := by
  induction items with
  | nil => exact absurd rfl hne
  | cons item rest ih =>
    cases rest with
    | nil => simp [absolutePath, weight, utf8Length_slash]
    | cons next rest =>
      have hsplit : utf8Length (absolutePath (item :: next :: rest)) =
          utf8Length ('/' :: item) + utf8Length (absolutePath (next :: rest)) := by
        simp [absolutePath, utf8Length, Nat.add_assoc]
      rw [hsplit, ih (by simp), utf8Length_slash]
      simp [weight]

theorem weight_le_of_sublist {first second : List Text} (hsub : first.Sublist second) :
    weight first ≤ weight second := by
  induction hsub with
  | slnil => exact le_rfl
  | cons item _ ih =>
    refine Nat.le_trans ih ?_
    simp [weight]
  | cons_cons item _ ih =>
    simp only [weight, map_cons, sum_cons] at ih ⊢
    omega

/-- The components of an absolute path, joined again, are no longer than it. -/
theorem utf8Length_absolutePath_le (hsub : items.Sublist (components ('/' :: path))) :
    utf8Length (absolutePath items) ≤ utf8Length ('/' :: path) := by
  have hwhole : utf8Length ('/' :: path) = weight (splitPath path) := by
    rw [← utf8Length_absolutePath (splitPath_ne_nil path), absolutePath, splitPath,
      intercalate_splitOn]
  by_cases hne : items = []
  · rw [hne, utf8Length_slash]
    exact Nat.le_add_left 1 _
  have hsplit : (components ('/' :: path)).Sublist (splitPath path) := by
    rw [components, splitPath_slash, filter_cons_of_neg (by simp)]
    exact filter_sublist
  rw [hwhole, utf8Length_absolutePath hne]
  exact weight_le_of_sublist (hsub.trans hsplit)

/-! ## Characters -/

theorem mem_intercalate_iff (hne : items ≠ []) :
    character ∈ ['/'].intercalate items ↔
      (character = '/' ∧ 2 ≤ items.length) ∨ ∃ item ∈ items, character ∈ item := by
  induction items with
  | nil => exact absurd rfl hne
  | cons item rest ih =>
    cases rest with
    | nil => simp
    | cons next rest =>
      rw [List.intercalate_cons_cons]
      grind

theorem mem_of_mem_splitPath (hitem : item ∈ splitPath path) (hcharacter : character ∈ item) :
    character ∈ path := by
  have hjoin : ['/'].intercalate (splitPath path) = path := intercalate_splitOn '/'
  rw [← hjoin, mem_intercalate_iff (splitPath_ne_nil path)]
  exact .inr ⟨item, hitem, hcharacter⟩

end Bazzulto.Vfs
