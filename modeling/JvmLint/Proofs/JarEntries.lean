import JvmLint.ClassFile.Jar
import Mathlib.Data.List.Induction
import Mathlib.Data.List.Perm.Subperm
import Mathlib.Data.List.Sort

/-!
# The classes of a jar

A jar lists its classes by name, each once. Of several entries of a name the last one is listed, so
entries of names that the jar does not have yet are listed beside those that it has.
-/

namespace JvmLint

theorem Text.eq_append_of_dropEnd? {s p t : String} (h : Text.dropEnd? s p = some t) : s = t ++ p := by
  unfold Text.dropEnd? Text.endsWith at h
  split at h
  · rename_i hends
    obtain ⟨front, hfront⟩ := List.isSuffixOf_iff_suffix.1 hends
    cases h
    have hlength : s.length - p.length = front.length := by
      rw [← String.length_toList, ← hfront, ← String.length_toList]
      simp
    apply String.toList_inj.1
    rw [hlength, String.toList_append, String.toList_ofList, ← hfront, List.take_left]
  · cases h

namespace Jar

theorem name_of_className? {e : ArchiveEntry} {name : String} (h : className? e = some name) :
    e.name = name ++ ".class" := by
  unfold className? at h
  simp only [Option.ite_none_left_eq_some] at h
  cases hdrop : Text.dropEnd? e.name ".class" with
  | none => simp [hdrop] at h
  | some front =>
    simp only [hdrop, Option.ite_none_left_eq_some, Option.some.injEq] at h
    rw [Text.eq_append_of_dropEnd? hdrop, h.2.2]

/-! ## The last entry of each name -/

def named (es : List ArchiveEntry) : List (String × ArchiveEntry) :=
  es.filterMap fun e => (className? e).map fun name => (name, e)

def keepLast (l : List (String × ArchiveEntry)) : List (String × ArchiveEntry) :=
  l.foldl (fun out (name, e) => out.filter (·.1 != name) ++ [(name, e)]) []

theorem classesOf_eq (es : List ArchiveEntry) :
    classesOf es = (keepLast (named es)).mergeSort fun a b => a.1 ≤ b.1 := rfl

theorem mem_named {es : List ArchiveEntry} {p : String × ArchiveEntry} :
    p ∈ named es ↔ p.2 ∈ es ∧ className? p.2 = some p.1 := by
  obtain ⟨name, e⟩ := p
  simp only [named, List.mem_filterMap, Option.map_eq_some_iff, Prod.mk.injEq]
  constructor
  · rintro ⟨d, hd, m, hm, rfl, rfl⟩
    exact ⟨hd, hm⟩
  · rintro ⟨he, hname⟩
    exact ⟨e, he, name, hname, rfl, rfl⟩

theorem keepLast_concat (l : List (String × ArchiveEntry)) (p : String × ArchiveEntry) :
    keepLast (l ++ [p]) = (keepLast l).filter (·.1 != p.1) ++ [p] := by
  simp [keepLast]

theorem nodup_keepLast (l : List (String × ArchiveEntry)) : ((keepLast l).map (·.1)).Nodup := by
  induction l using List.reverseRecOn with
  | nil => exact List.nodup_nil
  | append_singleton l p ih =>
    rw [keepLast_concat, List.map_append, List.nodup_append]
    refine ⟨ih.sublist (List.filter_sublist.map _), by simp, ?_⟩
    rintro _ ha _ hb rfl
    obtain ⟨q, hq, hqp⟩ := List.mem_map.1 ha
    have hne := (List.mem_filter.1 hq).2
    simp_all

theorem mem_keepLast {l : List (String × ArchiveEntry)} {p : String × ArchiveEntry} :
    p ∈ keepLast l ↔ (l.filter (·.1 == p.1)).getLast? = some p := by
  induction l using List.reverseRecOn with
  | nil => simp [keepLast]
  | append_singleton l q ih =>
    rw [keepLast_concat, List.mem_append, List.mem_filter, ih, List.filter_append]
    by_cases hq : q.1 = p.1
    · have hlast : [q].filter (·.1 == p.1) = [q] := by simp [hq]
      simp [hlast, hq, eq_comm]
    · have hnone : [q].filter (·.1 == p.1) = [] := by simp [hq]
      have hne : p ≠ q := fun h => hq (h ▸ rfl)
      simp [hnone, Ne.symm hq, hne]

/-! ## The list of classes -/

theorem mem_classesOf {es : List ArchiveEntry} {p : String × ArchiveEntry} :
    p ∈ classesOf es ↔ ((named es).filter (·.1 == p.1)).getLast? = some p := by
  rw [classesOf_eq, List.mem_mergeSort, mem_keepLast]

theorem nodup_names (es : List ArchiveEntry) : ((classesOf es).map (·.1)).Nodup :=
  ((List.mergeSort_perm _ _).map _).nodup_iff.2 (nodup_keepLast (named es))

theorem nodup_classesOf (es : List ArchiveEntry) : (classesOf es).Nodup := (nodup_names es).of_map _

theorem sorted_classesOf (es : List ArchiveEntry) : (classesOf es).Pairwise fun a b => a.1 < b.1 := by
  have hle : (classesOf es).Pairwise fun a b => a.1 ≤ b.1 := by
    refine (List.pairwise_mergeSort ?_ ?_ (keepLast (named es))).imp fun h => by simpa using h
    · intro a b c hab hbc
      simp only [decide_eq_true_eq] at *
      exact String.le_trans hab hbc
    · intro a b
      simpa using String.le_total a.1 b.1
  have hne : (classesOf es).Pairwise fun a b => a.1 ≠ b.1 := List.pairwise_map.1 (nodup_names es)
  exact (hle.and hne).imp fun h => String.not_le.1 fun hba => h.2 (String.le_antisymm h.1 hba)

theorem lookup_classesOf {es : List ArchiveEntry} {p : String × ArchiveEntry} (h : p ∈ classesOf es) :
    (classesOf es).lookup p.1 = some p.2 := by
  obtain ⟨front, back, hsplit⟩ := List.append_of_mem h
  have hnodup := nodup_names es
  rw [hsplit] at hnodup
  refine List.lookup_eq_some_iff.2 ⟨front, back, hsplit, fun q hq => ?_⟩
  have hdisjoint := (List.nodup_append.1 (List.map_append ▸ hnodup)).2.2
  have hne := hdisjoint q.1 (List.mem_map_of_mem hq) p.1 (by simp)
  simpa using Ne.symm hne

/-! ## New entries -/

section
variable {es es' added : List ArchiveEntry}

/-- The added entries count as classes, under names that are new and differ from each other. -/
structure NewNames (es added : List ArchiveEntry) : Prop where
  counts : ∀ e ∈ added, (className? e).isSome
  fresh : ∀ e ∈ added, className? e ∉ es.map className?
  distinct : (added.map className?).Nodup

theorem filter_named_of_not_mem {l : List (String × ArchiveEntry)} {n : String} (h : n ∉ l.map (·.1)) :
    l.filter (·.1 == n) = [] := by
  rw [List.filter_eq_nil_iff]
  intro p hp hn
  exact h (List.mem_map.2 ⟨p, hp, by simpa using hn⟩)

theorem name_mem_named {n : String} : n ∈ (named es).map (·.1) ↔ some n ∈ es.map className? := by
  simp only [List.mem_map, mem_named]
  constructor
  · rintro ⟨p, ⟨hp, hname⟩, rfl⟩
    exact ⟨p.2, hp, hname⟩
  · rintro ⟨e, he, hname⟩
    exact ⟨(n, e), ⟨he, hname⟩, rfl⟩

theorem NewNames.nodup_named (h : NewNames es added) : ((named added).map (·.1)).Nodup := by
  have hsome : ((named added).map (·.1)).map some = added.map className? := by
    have hcounts := h.counts
    clear h
    induction added with
    | nil => rfl
    | cons e added ih =>
      obtain ⟨name, hname⟩ := Option.isSome_iff_exists.1 (hcounts e (by simp))
      have hrest := ih fun d hd => hcounts d (List.mem_cons_of_mem _ hd)
      unfold named at hrest ⊢
      simp [hname, hrest]
  have hdistinct := h.distinct
  rw [← hsome] at hdistinct
  exact hdistinct.of_map some

theorem NewNames.mem_classesOf_iff (h : NewNames es added) (hsub : es.Sublist es') (hperm : es'.Perm (es ++ added))
    {p : String × ArchiveEntry} : p ∈ classesOf es' ↔ p ∈ classesOf es ∨ p ∈ named added := by
  have hnamed : ((named es').filter (·.1 == p.1)).Perm
      ((named es).filter (·.1 == p.1) ++ (named added).filter (·.1 == p.1)) := by
    rw [← List.filter_append, named, named, named, ← List.filterMap_append]
    exact (hperm.filterMap _).filter _
  rw [mem_classesOf, mem_classesOf]
  by_cases hp : p.1 ∈ (named added).map (·.1)
  · -- the name is new: only the added entry has it
    obtain ⟨q, hq, hqp⟩ := List.mem_map.1 hp
    have hold : (named es).filter (·.1 == p.1) = [] := by
      apply filter_named_of_not_mem
      rw [name_mem_named]
      have hfresh := h.fresh q.2 (mem_named.1 hq).1
      rwa [(mem_named.1 hq).2, hqp] at hfresh
    have hnew : (named added).filter (·.1 == p.1) = [q] := by
      obtain ⟨front, back, hsplit⟩ := List.append_of_mem hq
      have hnodup := h.nodup_named
      rw [hsplit, List.map_append, List.map_cons, List.nodup_append, List.nodup_cons] at hnodup
      obtain ⟨-, ⟨hback, -⟩, hfront⟩ := hnodup
      rw [hsplit, List.filter_append, List.filter_cons_of_pos (by simpa using hqp),
        filter_named_of_not_mem fun hn => hfront _ hn _ (by simp) hqp.symm,
        filter_named_of_not_mem (hqp ▸ hback), List.nil_append]
    have honly : p ∈ named added ↔ p = q := by
      rw [← List.mem_singleton, ← hnew]
      simp
    rw [hold, hnew, List.nil_append, List.perm_singleton] at hnamed
    simp [hnamed, hold, honly, eq_comm]
  · -- the name is not among the new ones: the entries of the name are the same
    have hnone := filter_named_of_not_mem hp
    rw [hnone, List.append_nil] at hnamed
    have hsame : (named es').filter (·.1 == p.1) = (named es).filter (·.1 == p.1) :=
      (((hsub.filterMap _).filter _).eq_of_length hnamed.length_eq.symm).symm
    have hnot : p ∉ named added := fun hmem => hp (List.mem_map_of_mem hmem)
    rw [hsame]
    simp [hnot]

theorem NewNames.disjoint (h : NewNames es added) {p : String × ArchiveEntry} (hp : p ∈ classesOf es) :
    p ∉ named added := by
  intro hadded
  have hlast := mem_classesOf.1 hp
  have hold : p ∈ named es := (List.mem_filter.1 (List.mem_of_getLast? hlast)).1
  apply h.fresh p.2 (mem_named.1 hadded).1
  exact List.mem_map_of_mem (mem_named.1 hold).1

theorem NewNames.perm_classesOf (h : NewNames es added) (hsub : es.Sublist es') (hperm : es'.Perm (es ++ added)) :
    (classesOf es').Perm (classesOf es ++ named added) := by
  have hnodup : (classesOf es ++ named added).Nodup := by
    refine List.nodup_append.2 ⟨nodup_classesOf es, h.nodup_named.of_map _, ?_⟩
    rintro p hp _ hadded rfl
    exact h.disjoint hp hadded
  rw [List.perm_ext_iff_of_nodup (nodup_classesOf es') hnodup]
  intro p
  rw [List.mem_append, h.mem_classesOf_iff hsub hperm]

theorem NewNames.sublist_classesOf (h : NewNames es added) (hsub : es.Sublist es') (hperm : es'.Perm (es ++ added)) :
    (classesOf es).Sublist (classesOf es') := by
  have : Std.Antisymm fun a b : String × ArchiveEntry => a.1 < b.1 := ⟨fun a b hab hba => absurd hba (String.lt_asymm hab)⟩
  refine List.sublist_of_subperm_of_pairwise ?_ (sorted_classesOf es) (sorted_classesOf es')
  exact (List.sublist_append_left _ _).subperm.trans (h.perm_classesOf hsub hperm).symm.subperm

end

end Jar

end JvmLint
