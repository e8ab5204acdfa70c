import Mathlib.Data.List.Basic
import ServletContainer.Context.Helper

/-! The paths that helpers give to names. Everything about the segments of a path follows from one
equation: a slash separates them (`Files.segments_append_slash`). So the path of a name has the segments
of the directory and then those of the name, and none of the latter leads up; a name with a segment that
does has no path (`Helper.belowBase_eq_none_iff`, `Helper.below_of_belowBase`). A resource is a file in its
place (`Helper.resource_eq`), and a name that ends with a slash has none, unless a table of the helper's own
says where it leads (`Helper.sparesDirectories_of_isPlain`). -/
namespace ServletContainer

namespace Files

open Text

/-- A path that continues another one: it is empty or starts with a slash. -/
def Continues (path : String) : Prop := path = "" ∨ path.toList.head? = some '/'

@[simp] theorem segments_empty : segments "" = [] := rfl

theorem segments_append_slash (a b : String) : segments (a ++ "/" ++ b) = segments a ++ segments b := by
  have hlist : (a ++ "/" ++ b).toList = a.toList ++ '/' :: b.toList := by simp
  rw [segments, hlist, splitAll_append_cons, List.filter_append, List.map_append]
  rfl

@[simp] theorem segments_slash (a : String) : segments ("/" ++ a) = segments a :=
  segments_append_slash "" a

theorem Continues.eq {path : String} (h : Continues path) :
    path = "" ∨ ∃ rest, path = "/" ++ rest := by
  refine h.imp_right fun hhead => ?_
  cases hp : path.toList with
  | nil => simp [hp] at hhead
  | cons c cs =>
    rw [hp, List.head?_cons] at hhead
    exact ⟨String.ofList cs, String.toList_injective (by simp [hp, Option.some.inj hhead])⟩

theorem segments_append {a b : String} (hb : Continues b) :
    segments (a ++ b) = segments a ++ segments b := by
  obtain rfl | ⟨rest, rfl⟩ := hb.eq
  · simp
  · rw [segments_slash, ← segments_append_slash, String.append_assoc]

theorem segments_dropStart (name : String) :
    segments (String.ofList (dropStart (· == '/') name.toList)) = segments name := by
  have hdrop (cs : List Char) :
      segments (String.ofList (dropStart (· == '/') cs)) = segments (String.ofList cs) := by
    induction cs with
    | nil => rfl
    | cons c cs ih =>
      by_cases hc : c = '/'
      · have hcons : String.ofList (c :: cs) = "/" ++ String.ofList cs :=
          String.toList_injective (by simp [hc])
        rw [hcons, segments_slash, ← ih, hc]
        rfl
      · rw [dropStart, List.dropWhile_cons_of_neg (by simpa using hc)]
  rw [hdrop, String.ofList_toList]

theorem parent_mem_segments {path : String} :
    ".." ∈ segments path ↔ ['.', '.'] ∈ splitAll '/' path.toList := by
  have hparent : ".." = String.ofList ['.', '.'] := rfl
  rw [segments, hparent, List.mem_map]
  constructor
  · rintro ⟨s, hs, heq⟩
    rw [← String.ofList_injective heq]
    exact (List.mem_filter.1 hs).1
  · intro hmem
    exact ⟨['.', '.'], List.mem_filter.2 ⟨hmem, by simp⟩, rfl⟩

/-- The path `f` leads from `base` down through the segments. -/
structure Below (base : String) (segs : List String) (f : String) : Prop where
  rooted : f.toList.head? = some '/' ↔ base.toList.head? = some '/'
  segments_eq : segments f = segments base ++ segs
  no_parent : ".." ∉ segs

theorem join_eq (base : String) {rel : String} (h : rel.toList.head? ≠ some '/') :
    base = "" ∧ join base rel = rel ∨
      ∃ b, (base = b ++ "/" ∨ base = b ∧ b ≠ "") ∧ join base rel = b ++ "/" ++ rel := by
  unfold join
  rw [if_neg h]
  by_cases hempty : base = ""
  · exact .inl ⟨hempty, by simp [hempty]⟩
  · by_cases hlast : base.toList.getLast? = some '/'
    · obtain ⟨b, hb⟩ := List.getLast?_eq_some_iff.1 hlast
      have hbase : base = String.ofList b ++ "/" := String.toList_injective (by simp [hb])
      exact .inr ⟨String.ofList b, .inl hbase, by rw [if_pos (.inr hlast), hbase]⟩
    · exact .inr ⟨base, .inr ⟨rfl, hempty⟩, by rw [if_neg (by simp [hempty, hlast])]⟩

/-- Joined to a base, a name without a leading slash and without a segment that leads up stays
below it. -/
theorem below_join (base : String) {rel : String} (h : rel.toList.head? ≠ some '/')
    (hparent : ".." ∉ segments rel) : Below base (segments rel) (join base rel) := by
  obtain ⟨rfl, hjoin⟩ | ⟨b, hbase, hjoin⟩ := join_eq base h
  · rw [hjoin]
    exact ⟨by simpa using h, rfl, hparent⟩
  · rw [hjoin]
    refine ⟨?_, ?_, hparent⟩
    · obtain rfl | ⟨rfl, hne⟩ := hbase
      · simp [List.head?_append]
      · obtain ⟨c, cs, hbase⟩ := List.exists_cons_of_ne_nil (mt String.toList_eq_nil_iff.1 hne)
        simp [hbase]
    · rw [segments_append_slash]
      obtain rfl | ⟨rfl, -⟩ := hbase
      · rw [← String.append_empty (s := b ++ "/"), segments_append_slash, segments_empty,
          List.append_nil]
      · rfl

/-- Nothing but a directory can have this path: it ends with a slash, or names nothing at all. -/
def NamesDirectory (path : String) : Prop := path = "" ∨ path.toList.getLast? = some '/'

theorem NamesDirectory.of_suffix {path tail : String} (h : NamesDirectory path)
    (htail : tail.toList <:+ path.toList) : NamesDirectory tail := by
  by_cases hempty : tail = ""
  · exact .inl hempty
  · have hne : tail.toList ≠ [] := mt String.toList_eq_nil_iff.1 hempty
    obtain ⟨front, hfront⟩ := htail
    rcases h with rfl | hlast
    · exact absurd (List.append_eq_nil_iff.1 hfront).2 hne
    · rw [← hfront, List.getLast?_append_of_ne_nil _ hne] at hlast
      exact .inr hlast

theorem NamesDirectory.append {tail : String} (h : NamesDirectory tail) (hne : tail ≠ "") (front : String) :
    NamesDirectory (front ++ tail) := by
  have htail : tail.toList ≠ [] := mt String.toList_eq_nil_iff.1 hne
  refine .inr ?_
  rw [String.toList_append, List.getLast?_append_of_ne_nil _ htail]
  exact h.resolve_left hne

theorem NamesDirectory.join {rel : String} (h : NamesDirectory rel) (base : String) :
    NamesDirectory (join base rel) := by
  by_cases hempty : rel = ""
  · subst hempty
    have hslash : NamesDirectory (base ++ "/" ++ "") := by
      rw [String.append_empty]
      exact NamesDirectory.append (.inr rfl) (by decide) base
    have hself (hbase : base = "" ∨ base.toList.getLast? = some '/') : NamesDirectory (base ++ "") := by
      rwa [String.append_empty]
    unfold Files.join
    split
    · exact h
    · split
      · exact hself ‹_›
      · exact hslash
  · unfold Files.join
    split
    · exact h
    · split
      · exact h.append hempty base
      · exact h.append hempty (base ++ "/")

theorem follow_concat_nil (fs : Files) (here : List String) (segs : List (List Char)) :
    fs.follow here (segs ++ [[]]) = none := by
  induction segs generalizing here with
  | nil => simp [follow]
  | cons s segs ih =>
    rw [List.cons_append, follow]
    split
    · exact ih here
    · split
      · split
        · rfl
        · exact ih here.dropLast
      · simp only
        split
        · simp
        · split
          · exact ih _
          · rfl

/-- No file has such a path. -/
theorem NamesDirectory.read?_eq_none {path : String} (h : NamesDirectory path) (fs : Files) :
    fs.read? path = none := by
  unfold read?
  split
  · rename_i rest hcut
    rw [cutStart_eq_some_iff] at hcut
    have hrest : NamesDirectory (String.ofList rest) := h.of_suffix ⟨_, by rw [hcut, String.toList_ofList]⟩
    rcases hrest with hempty | hlast
    · obtain rfl : rest = [] := by simpa using congrArg String.toList hempty
      exact fs.follow_concat_nil [] []
    · rw [String.toList_ofList] at hlast
      obtain ⟨front, rfl⟩ := List.getLast?_eq_some_iff.1 hlast
      rw [splitAll_append_cons]
      exact fs.follow_concat_nil [] _
  · rfl

end Files

namespace Helper

open Text Files

variable {base name f : String}

theorem belowBase_eq (base name : String) :
    belowBase base name = if ".." ∈ segments name then none
      else some (join base (String.ofList (dropStart (· == '/') name.toList))) := by
  simp only [← segments_dropStart name, parent_mem_segments, String.toList_ofList, belowBase,
    List.contains_iff_mem]

/-- A directory helper refuses a name if and only if a segment of it leads up. -/
theorem belowBase_eq_none_iff : belowBase base name = none ↔ ".." ∈ segments name := by
  simp [belowBase_eq]

theorem below_of_belowBase (h : belowBase base name = some f) : Below base (segments name) f := by
  rw [belowBase_eq] at h
  split at h
  · cases h
  · rename_i hparent
    cases h
    rw [← segments_dropStart name] at hparent ⊢
    refine below_join base ?_ hparent
    rw [String.toList_ofList]
    exact head?_dropStart_ne '/' _

section Place

variable {helper : Helper} {fs fs' : Files} {module : Option Module}

/-- Where a resource of this name has to lie. -/
def place (h : Helper) (root : String) (module : Option Module) (name : String) : Option String :=
  match h with
  | .scripted _ _ _ none => some (join (join root ((module.map (·.name)).getD "_"))
      (String.ofList (dropStart (· == '/') name.toList)))
  | .scripted _ _ _ (some table) => table.lookup (module, name)
  | h => h.realPath name

/-- A resource is a file in its place. -/
theorem resource_eq (h : Helper) (fs : Files) (module : Option Module) (name : String) :
    h.resource fs module name = (h.place fs.root module name).filter fs.isFile := by
  cases h with
  | scripted _ _ _ table =>
    cases table with
    | none => simp only [resource, place, Option.filter_some]
    | some table => rfl
  | _ => rfl

theorem isFile_of_resource (h : helper.resource fs module name = some f) : fs.isFile f := by
  rw [resource_eq] at h
  exact (Option.filter_eq_some_iff.1 h).2

theorem resource_of_isFile (h : helper.resource fs module name = some f) (hroot : fs'.root = fs.root)
    (hfile : fs'.isFile f) : helper.resource fs' module name = some f := by
  rw [resource_eq] at h ⊢
  rw [hroot]
  exact Option.filter_eq_some_iff.2 ⟨(Option.filter_eq_some_iff.1 h).1, hfile⟩

/-- The helper has no table of its own for where names lead. -/
def isPlain : Helper → Bool
  | .scripted _ _ _ (some _) => false
  | _ => true

theorem namesDirectory_of_place {root : String} (hplain : helper.isPlain) (hname : NamesDirectory name)
    (h : helper.place root module name = some f) : NamesDirectory f := by
  have hrel (base : String) :
      NamesDirectory (join base (String.ofList (dropStart (· == '/') name.toList))) := by
    refine (hname.of_suffix ?_).join base
    rw [String.toList_ofList]
    exact List.dropWhile_suffix _
  cases helper with
  | bare => cases h
  | scripted _ _ _ table =>
    cases table with
    | none =>
      cases h
      exact hrel _
    | some table => cases hplain
  | directory base rule =>
    cases base with
    | none => cases h
    | some base =>
      have h : belowBase base name = some f := h
      rw [belowBase_eq] at h
      split at h
      · cases h
      · cases h
        exact hrel base

/-- The helper has no resource for a name that ends with a slash. -/
def SparesDirectories (h : Helper) (fs : Files) (module : Option Module) : Prop :=
  ∀ name, name.toList.getLast? = some '/' → h.resource fs module name = none

theorem sparesDirectories_of_isPlain (hplain : helper.isPlain) (fs : Files) (module : Option Module) :
    helper.SparesDirectories fs module := by
  intro name hname
  rw [resource_eq, Option.filter_eq_none_iff]
  intro f hf
  simp [isFile, (namesDirectory_of_place hplain (.inr hname) hf).read?_eq_none]

end Place

end Helper

end ServletContainer
