import Mathlib.Data.Fintype.Card
import Mathlib.Data.Set.Finite.List
import Mathlib.Logic.Relation

/-! Who waits for whom: cycles of a relation, and finite sets that no chain leaves. -/
namespace WaitGraph

variable {ι : Type} {W V : ι → ι → Prop}

def Acyclic (W : ι → ι → Prop) : Prop := ∀ i, ¬Relation.TransGen W i i

theorem Acyclic.mono (acyclic : Acyclic W) (fewer : ∀ i j, V i j → W i j) : Acyclic V :=
  fun i cycle => acyclic i (Relation.TransGen.mono fewer i i cycle)

def Closed (W : ι → ι → Prop) (group : List ι) : Prop := ∀ i ∈ group, ∃ j ∈ group, W i j

/-- The members of a walk, the last of them left out. -/
theorem walk_members {a b : ι} (walk : Relation.TransGen W a b) :
    ∃ group : List ι, a ∈ group ∧ ∀ i ∈ group, W i b ∨ ∃ j ∈ group, W i j := by
  induction walk using Relation.TransGen.head_induction_on with
  | single last => exact ⟨[_],List.mem_singleton_self _,fun i among => Or.inl (List.mem_singleton.mp among ▸ last)⟩
  | @head a c first _ ih =>
    obtain ⟨group,inside,leads⟩ := ih
    refine ⟨a :: group,List.mem_cons_self,?_⟩
    intro i among
    rcases List.mem_cons.mp among with rfl | later
    · exact Or.inr ⟨c,List.mem_cons_of_mem _ inside,first⟩
    · rcases leads i later with last | ⟨j,member,next⟩
      · exact Or.inl last
      · exact Or.inr ⟨j,List.mem_cons_of_mem _ member,next⟩

theorem closed_of_cycle {a : ι} (cycle : Relation.TransGen W a a) : ∃ group : List ι, a ∈ group ∧ Closed W group := by
  obtain ⟨group,inside,leads⟩ := walk_members cycle
  refine ⟨group,inside,?_⟩
  intro i among
  rcases leads i among with last | next
  · exact ⟨a,inside,last⟩
  · exact next

/-- Nobody can wait at the end of a chain: in a finite group there is none. -/
theorem not_acyclic_of_closed {group : List ι} {a : ι} (inside : a ∈ group) (closed : Closed W group) :
    ¬Acyclic W := by
  intro acyclic
  let before : {i // i ∈ group} → {i // i ∈ group} → Prop := fun i j => Relation.TransGen W j.val i.val
  have finite : Finite {i // i ∈ group} := List.finite_toSet group
  have transitive : IsTrans _ before := ⟨fun _ _ _ first second => second.trans first⟩
  have irreflexive : Std.Irrefl before := ⟨fun i => acyclic i.val⟩
  have founded : WellFounded before := Finite.wellFounded_of_trans_of_irrefl before
  obtain ⟨last,_,least⟩ := founded.has_min Set.univ ⟨⟨a,inside⟩,trivial⟩
  obtain ⟨j,member,next⟩ := closed last.val last.property
  exact least ⟨j,member⟩ trivial (Relation.TransGen.single next)

end WaitGraph
