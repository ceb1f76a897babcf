import Mathlib.Data.List.Pairwise
import WsGateway.Lib.Bytes

/-!
# Header fields

The container of the fields of an HTTP message. Names are compared ignoring
case, no two fields of a container have equal names, and the fields keep the
order in which they were last set.
-/

namespace WsGateway.Lib.Http

/-- Name and value. -/
abbrev Field := Bytes × Bytes

/-- The field has the name `n`, ignoring case. -/
def named (n : Bytes) (f : Field) : Bool := iequals n f.1

theorem named_self (n v : Bytes) : named n (n, v) = true := iequals_refl n

theorem named_of_iequals {n m : Bytes} (h : iequals n m = true) : named n = named m := by
  funext f
  exact iequals_congr h f.1

/-- The names of the two fields differ. -/
def Apart (f g : Field) : Prop := iequals f.1 g.1 = false

instance : DecidableRel Apart := fun f g => inferInstanceAs (Decidable (iequals f.1 g.1 = false))

instance : Std.Symm Apart where
  symm f g h := by
    rw [Apart, iequals_comm]
    exact h

theorem not_apart_of_named {n : Bytes} {f g : Field} (hf : named n f = true)
    (hg : named n g = true) : ¬ Apart f g := by
  have hfg : iequals f.1 g.1 = true := iequals_trans (by rw [iequals_comm]; exact hf) hg
  simp [Apart, hfg]

/-- Fields of pairwise different names, with trimmed values. -/
structure Fields where
  toList : List Field
  distinct : toList.Pairwise Apart
  trimmed : ∀ f ∈ toList, Trimmed f.2

namespace Fields

def empty : Fields := ⟨[], List.Pairwise.nil, fun _ h => by cases h⟩

/-- Remove the field of this name. -/
def erase (fs : Fields) (n : Bytes) : Fields where
  toList := fs.toList.filter fun f => !named n f
  distinct := fs.distinct.filter _
  trimmed f hf := fs.trimmed f (List.mem_filter.mp hf).1

theorem mem_erase {fs : Fields} {n : Bytes} {f : Field} :
    f ∈ (fs.erase n).toList ↔ f ∈ fs.toList ∧ named n f = false := by
  simp [erase]

/-- Remove the field of this name and append the new one, its value trimmed. -/
def set (fs : Fields) (n v : Bytes) : Fields where
  toList := (fs.erase n).toList ++ [(n, trim v)]
  distinct := by
    rw [List.pairwise_append]
    refine ⟨(fs.erase n).distinct, List.pairwise_singleton _ _, ?_⟩
    intro f hf g hg
    obtain rfl := List.mem_singleton.mp hg
    rw [Apart, iequals_comm]
    exact (mem_erase.mp hf).2
  trimmed f hf := by
    rcases List.mem_append.mp hf with hf | hf
    · exact (fs.erase n).trimmed f hf
    · obtain rfl := List.mem_singleton.mp hf
      exact trimmed_trim v

theorem mem_set {fs : Fields} {n v : Bytes} {f : Field} :
    f ∈ (fs.set n v).toList ↔ (f ∈ fs.toList ∧ named n f = false) ∨ f = (n, trim v) := by
  simp [set, mem_erase]

def get? (fs : Fields) (n : Bytes) : Option Bytes := (fs.toList.find? (named n)).map Prod.snd

/-! ## One field of each name -/

theorem eq_of_named {fs : Fields} {n : Bytes} {f g : Field} (hf : f ∈ fs.toList)
    (hg : g ∈ fs.toList) (hfn : named n f = true) (hgn : named n g = true) : f = g := by
  by_contra hne
  exact not_apart_of_named hfn hgn (fs.distinct.forall hf hg hne)

theorem filter_named_of_mem {fs : Fields} {n : Bytes} {f : Field} (hf : f ∈ fs.toList)
    (hn : named n f = true) : fs.toList.filter (named n) = [f] := by
  have hpair := fs.distinct.filter (named n)
  have hall : ∀ g ∈ fs.toList.filter (named n), g = f := by
    intro g hg
    obtain ⟨hg, hgn⟩ := List.mem_filter.mp hg
    exact eq_of_named hg hf hgn hn
  have hmem : f ∈ fs.toList.filter (named n) := List.mem_filter.mpr ⟨hf, hn⟩
  cases h : fs.toList.filter (named n) with
  | nil => simp [h] at hmem
  | cons a rest =>
      rw [h] at hall hpair
      obtain rfl := hall a List.mem_cons_self
      cases rest with
      | nil => rfl
      | cons b rest =>
          obtain rfl := hall b (by simp)
          have happart := List.rel_of_pairwise_cons hpair List.mem_cons_self
          exact absurd happart (not_apart_of_named hn hn)

theorem length_filter_named_le_one (fs : Fields) (n : Bytes) :
    (fs.toList.filter (named n)).length ≤ 1 := by
  cases h : fs.toList.filter (named n) with
  | nil => simp
  | cons f rest =>
      obtain ⟨hf, hn⟩ := List.mem_filter.mp (h ▸ List.mem_cons_self)
      rw [← h, filter_named_of_mem hf hn]
      simp

theorem get?_eq_some {fs : Fields} {n v : Bytes} :
    fs.get? n = some v ↔ ∃ m, (m, v) ∈ fs.toList ∧ iequals n m = true := by
  rw [get?, Option.map_eq_some_iff]
  constructor
  · intro h
    rcases h with ⟨⟨m, w⟩, hfind, rfl⟩
    have hn : named n (m, w) = true := List.find?_some hfind
    exact ⟨m, List.mem_of_find?_eq_some hfind, hn⟩
  · intro h
    rcases h with ⟨m, hm, hnm⟩
    have hn : named n (m, v) = true := hnm
    cases hfind : fs.toList.find? (named n) with
    | none =>
        rw [List.find?_eq_none] at hfind
        exact absurd hn (hfind _ hm)
    | some f =>
        have hf := eq_of_named hm (List.mem_of_find?_eq_some hfind) hn (List.find?_some hfind)
        exact ⟨f, rfl, by rw [← hf]⟩

theorem get?_eq_none {fs : Fields} {n : Bytes} :
    fs.get? n = none ↔ ∀ f ∈ fs.toList, named n f = false := by
  simp [get?]

theorem get?_set_of_iequals {fs : Fields} {n m v : Bytes} (h : iequals m n = true) :
    (fs.set n v).get? m = some (trim v) :=
  get?_eq_some.mpr ⟨n, mem_set.mpr (.inr rfl), h⟩

theorem get?_set_of_ne {fs : Fields} {n m v : Bytes} (h : iequals m n = false) :
    (fs.set n v).get? m = fs.get? m := by
  have hlast : [(n, trim v)].find? (named m) = none := by simp [named, h]
  have hsame : (fun f => decide ((!named n f) = true ∧ named m f = true)) = named m := by
    funext f
    cases hm : named m f with
    | false => simp
    | true =>
        have hn : named n f = false := by
          by_contra hn
          rw [Bool.not_eq_false] at hn
          have hmn := iequals_trans hm (by rw [iequals_comm]; exact hn)
          rw [h] at hmn
          cases hmn
        simp [hn]
  simp only [get?, set, erase, List.find?_append, List.find?_filter, hlast, hsame,
    Option.or_none]

theorem get?_set (fs : Fields) (n m v : Bytes) :
    (fs.set n v).get? m = if iequals m n = true then some (trim v) else fs.get? m := by
  split
  · rename_i h
    exact get?_set_of_iequals h
  · rename_i h
    exact get?_set_of_ne (Bool.eq_false_of_not_eq_true h)

theorem get?_congr {n m : Bytes} (h : iequals n m = true) (fs : Fields) :
    fs.get? n = fs.get? m := by
  rw [get?, get?, named_of_iequals h]

theorem get?_erase_of_ne {fs : Fields} {n m : Bytes} (h : iequals m n = false) :
    (fs.erase n).get? m = fs.get? m := by
  have hset : (fs.set n []).get? m = fs.get? m := get?_set_of_ne h
  rw [← hset, set, get?, get?, List.find?_append]
  simp [named, h]

theorem get?_erase_self {fs : Fields} {n : Bytes} : (fs.erase n).get? n = none :=
  get?_eq_none.mpr fun _ hf => (mem_erase.mp hf).2

/-! ## Setting several fields in order -/

def setAll (fs : Fields) (es : List Field) : Fields := es.foldl (fun fs e => fs.set e.1 e.2) fs

/-- The value that the last of the entries with this name sets. -/
def lastValue (n : Bytes) (es : List Field) : Option Bytes :=
  (es.reverse.find? (named n)).map fun e => trim e.2

theorem setAll_concat (fs : Fields) (es : List Field) (e : Field) :
    fs.setAll (es ++ [e]) = (fs.setAll es).set e.1 e.2 := by
  simp [setAll]

theorem get?_setAll (fs : Fields) (n : Bytes) (es : List Field) :
    (fs.setAll es).get? n = (lastValue n es).or (fs.get? n) := by
  induction es using List.reverseRecOn with
  | nil => simp [setAll, lastValue]
  | append_singleton es e ih =>
      rw [setAll_concat]
      cases h : iequals n e.1 with
      | true => simp [get?_set_of_iequals h, lastValue, named, h]
      | false =>
          rw [get?_set_of_ne h, ih]
          simp [lastValue, named, h]

theorem lastValue_eq_some {n v : Bytes} {es : List Field} (h : lastValue n es = some v) :
    ∃ e ∈ es, named n e = true ∧ v = trim e.2 := by
  obtain ⟨e, he, rfl⟩ := Option.map_eq_some_iff.mp h
  exact ⟨e, List.mem_reverse.mp (List.mem_of_find?_eq_some he), List.find?_some he, rfl⟩

theorem lastValue_eq_none {n : Bytes} {es : List Field} :
    lastValue n es = none ↔ ∀ e ∈ es, named n e = false := by
  simp [lastValue]

/-- The entries in another order, with `e` at their end. -/
def moveLast (e : Field) (es : List Field) : List Field :=
  es.filter (fun f => f != e) ++ es.filter fun f => !(f != e)

theorem moveLast_perm (e : Field) (es : List Field) : (moveLast e es).Perm es :=
  List.filter_append_perm _ es

theorem reverse_moveLast (e : Field) (es : List Field) :
    (moveLast e es).reverse =
      (es.reverse.filter fun f => !(f != e)) ++ es.reverse.filter fun f => f != e := by
  rw [moveLast, List.reverse_append, List.filter_reverse, List.filter_reverse]

theorem lastValue_moveLast {n : Bytes} {e : Field} {es : List Field} (he : e ∈ es)
    (hn : named n e = true) : lastValue n (moveLast e es) = some (trim e.2) := by
  have hfind : (es.reverse.filter fun f => !(f != e)).find? (named n) = some e := by
    have hmem : e ∈ es.reverse.filter fun f => !(f != e) := by simpa using he
    cases hcase : (es.reverse.filter fun f => !(f != e)).find? (named n) with
    | none =>
        rw [List.find?_eq_none] at hcase
        exact absurd hn (hcase e hmem)
    | some f =>
        have hf := (List.mem_filter.mp (List.mem_of_find?_eq_some hcase)).2
        have hfe : f = e := by simpa using hf
        rw [hfe]
  rw [lastValue, reverse_moveLast, List.find?_append, hfind]
  rfl

theorem mem_setAll_of_pairwise {es : List Field} (h : es.Pairwise Apart) {f : Field} :
    f ∈ (empty.setAll es).toList ↔ ∃ e ∈ es, f = (e.1, trim e.2) := by
  induction es using List.reverseRecOn with
  | nil => simp [setAll, empty]
  | append_singleton es e ih =>
      rw [List.pairwise_append] at h
      rw [setAll_concat, mem_set, ih h.1]
      constructor
      · intro hcases
        rcases hcases with ⟨⟨g, hg, rfl⟩, -⟩ | rfl
        · exact ⟨g, List.mem_append_left _ hg, rfl⟩
        · exact ⟨e, by simp, rfl⟩
      · intro hset
        rcases hset with ⟨g, hg, rfl⟩
        rcases List.mem_append.mp hg with hg | hg
        · refine .inl ⟨⟨g, hg, rfl⟩, ?_⟩
          have happart : Apart g e := h.2.2 g hg e (by simp)
          rw [named, iequals_comm]
          exact happart
        · obtain rfl := List.mem_singleton.mp hg
          exact .inr rfl

/-! ## Names -/

def HasName (P : Bytes → Prop) (fs : Fields) : Prop := ∃ f ∈ fs.toList, P f.1

section Names

variable {P : Bytes → Prop} (hP : ∀ n m, iequals n m = true → P n → P m)

include hP

/-- For a property that does not depend on case, only the names that were set count. -/
theorem hasName_set (fs : Fields) (n v : Bytes) :
    (fs.set n v).HasName P ↔ fs.HasName P ∨ P n := by
  constructor
  · intro hname
    rcases hname with ⟨f, hf, hPf⟩
    rcases mem_set.mp hf with ⟨hf, -⟩ | rfl
    · exact .inl ⟨f, hf, hPf⟩
    · exact .inr hPf
  · intro hcases
    rcases hcases with ⟨f, hf, hPf⟩ | hPn
    · cases h : named n f with
      | true =>
          have hn : P n := hP f.1 n (by rw [iequals_comm]; exact h) hPf
          exact ⟨(n, trim v), mem_set.mpr (.inr rfl), hn⟩
      | false => exact ⟨f, mem_set.mpr (.inl ⟨hf, h⟩), hPf⟩
    · exact ⟨(n, trim v), mem_set.mpr (.inr rfl), hPn⟩

theorem hasName_setAll (fs : Fields) (es : List Field) :
    (fs.setAll es).HasName P ↔ fs.HasName P ∨ ∃ e ∈ es, P e.1 := by
  induction es using List.reverseRecOn with
  | nil => simp [setAll]
  | append_singleton es e ih =>
      rw [setAll_concat, hasName_set hP, ih]
      simp [or_assoc]

theorem hasName_erase_of_not {fs : Fields} {n : Bytes} (hn : ¬ P n) :
    (fs.erase n).HasName P ↔ fs.HasName P := by
  constructor
  · intro hname
    rcases hname with ⟨f, hf, hPf⟩
    exact ⟨f, (mem_erase.mp hf).1, hPf⟩
  · intro hname
    rcases hname with ⟨f, hf, hPf⟩
    refine ⟨f, mem_erase.mpr ⟨hf, ?_⟩, hPf⟩
    by_contra h
    rw [Bool.not_eq_false] at h
    exact hn (hP f.1 n (by rw [iequals_comm]; exact h) hPf)

end Names

end Fields

end WsGateway.Lib.Http
