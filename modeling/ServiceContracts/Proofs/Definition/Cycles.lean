import ServiceContracts.Proofs.Definition.Loading
import Mathlib.Data.List.Chain
/-!
# Cycles of references

The resolver keeps the names it came by, and a name that is already among
them closes a cycle. `Way` says what it keeps: each name refers to the
next, the last one to the name at hand, and none comes twice. So what it
cuts out of the way at the name's return is a cycle as such (`IsCycle`),
with nothing before it and no shorter one inside.
-/


namespace ServiceContracts.Definition

/-- **A cycle of references**, as it is reported: declared types, each
referring to the next, from one of them back to it, and no other twice. -/
structure IsCycle (decls : Declarations) (names : List String) : Prop where
  long : 2 ≤ names.length
  closed : names.head? = names.getLast?
  distinct : names.dropLast.Nodup
  declared : ∀ name ∈ names, name ∈ Entries.keys decls
  edges : names.IsChain (Refers decls)

/-- **A way to a name** along references, on which no name comes twice. -/
structure Way (decls : Declarations) (way : List String) (name : String) : Prop where
  edges : (way ++ [name]).IsChain (Refers decls)
  distinct : way.Nodup

variable {decls : Declarations} {way names : List String} {name ref : String}

/-- Along a chain of references, every name leads to the later ones. -/
theorem pairwise_transGen (h : names.IsChain (Refers decls)) :
    names.Pairwise (Relation.TransGen (Refers decls)) :=
  List.isChain_iff_pairwise.mp (h.imp fun _ _ => .single)

/-- What leads anywhere is declared. -/
theorem declared_of_transGen (h : Relation.TransGen (Refers decls) name ref) :
    name ∈ Entries.keys decls := by
  obtain ⟨next, hnext, -⟩ := Relation.TransGen.head'_iff.mp h
  exact hnext.declared

/-- A cycle leads from its first name back to it. -/
theorem IsCycle.exists_transGen (h : IsCycle decls names) :
    ∃ name, Relation.TransGen (Refers decls) name name := by
  obtain ⟨hlong, hclosed, -, -, hedges⟩ := h
  match names with
  | first :: second :: rest =>
    obtain ⟨hfirst, -⟩ := List.pairwise_cons.mp (pairwise_transGen hedges)
    rw [List.head?_cons, List.getLast?_cons_cons] at hclosed
    exact ⟨first, hfirst first (List.mem_of_getLast? hclosed.symm)⟩

namespace Way

/-- The way starts at any name. -/
theorem nil (name : String) : Way decls [] name := ⟨.singleton name, List.nodup_nil⟩

/-- It goes on along a reference, from a name that is not on it. -/
theorem snoc (h : Way decls way name) (hnew : name ∉ way) (href : Refers decls name ref) :
    Way decls (way ++ [name]) ref := by
  have hend : ∀ last ∈ (way ++ [name]).getLast?, ∀ next ∈ [ref].head?, Refers decls last next := by
    simpa using href
  exact ⟨h.edges.append (.singleton ref) hend,
    List.nodup_append'.mpr ⟨h.distinct, List.nodup_singleton name, by simpa using hnew⟩⟩

/-- All names on it lead to the name at hand. -/
theorem leads (h : Way decls way name) : Leads decls way name := by
  intro n hn
  obtain ⟨-, -, hall⟩ := List.pairwise_append.mp (pairwise_transGen h.edges)
  exact hall n hn name (List.mem_singleton_self name)

/-- **A way that comes back to one of its names holds a cycle**, from there
on. -/
theorem isCycle (h : Way decls way name) (hback : name ∈ way) :
    IsCycle decls (way.dropWhile (· ≠ name) ++ [name]) := by
  have hleads := h.leads
  obtain ⟨hedges, hdistinct⟩ := h
  obtain ⟨before, after, rfl⟩ := List.append_of_mem hback
  have hbefore : name ∉ before := by
    obtain ⟨-, -, hdisjoint⟩ := List.nodup_append'.mp hdistinct
    exact fun hmem => hdisjoint hmem List.mem_cons_self
  have hcut : (before ++ name :: after).dropWhile (· ≠ name) = name :: after := by
    rw [List.dropWhile_append_of_pos fun n hn => decide_eq_true (ne_of_mem_of_not_mem hn hbefore)]
    exact List.dropWhile_cons_of_neg (by simp)
  rw [hcut]
  refine ⟨by simp, by rw [List.getLast?_concat]; rfl, ?_, fun n hn => ?_, ?_⟩
  · rw [List.dropLast_concat]
    exact (List.nodup_append'.mp hdistinct).2.1
  · have hn' : n ∈ before ++ name :: after := by
      rcases List.mem_append.mp hn with hn | hn
      · exact List.mem_append_right before hn
      · exact List.mem_singleton.mp hn ▸ hback
    exact declared_of_transGen (hleads n hn')
  · rw [List.append_assoc] at hedges
    exact hedges.right_of_append

end Way

end ServiceContracts.Definition
