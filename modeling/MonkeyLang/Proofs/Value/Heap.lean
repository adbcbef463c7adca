import MonkeyLang.Proofs.Value.CopyOnWrite
import MonkeyLang.Value.Heap

/-!
What a heap holds after a change. A binding is written to one frame that exists, and a new frame
stands behind all others.
-/
namespace MonkeyLang.Heap

variable {h : Heap} {i : Nat}

theorem size_set (scope : Scope) (name : String) (value : Value) :
    (h.set scope name value).size = h.size :=
  Environments.size_set _ _ _

theorem frame_set_of_ne {scope : Scope} (name : String) (value : Value) (hi : i ≠ scope.frame) :
    (h.set scope name value).frame i = h.frame i :=
  (h.wellFormed.frame_set _ _ _ i).trans (if_neg fun hyes => hi hyes.1)

theorem frame_set_self {scope : Scope} (name : String) (value : Value)
    (hi : scope.frame < h.size) :
    (h.set scope name value).frame scope.frame = (h.frame scope.frame).set name value :=
  (h.wellFormed.frame_set _ _ _ _).trans (if_pos ⟨rfl, hi⟩)

theorem frame_of_size_le (hi : h.size ≤ i) : h.frame i = [] := Environments.frame_of_size_le hi

/-- The second heap is the first one with one more frame behind all others. -/
structure Adds (h : Heap) (f : Frame) (h' : Heap) : Prop where
  size : h'.size = h.size + 1
  frame : ∀ i, h'.frame i = if i = h.size then f else h.frame i

theorem adds_newScope (outer : Option Scope) (builtins : List Builtin) :
    h.Adds [] (h.newScope outer builtins).2 where
  size := Environments.size_new _ _
  frame := h.wellFormed.frame_new _ _

theorem adds_enclosed (scope : Scope) : h.Adds [] (h.enclosed scope).2 := adds_newScope _ _

theorem adds_snapshot (scope : Scope) : h.Adds (h.frame scope.frame) (h.snapshot scope).2 where
  size := Environments.size_snapshot _
  frame := h.wellFormed.frame_snapshot _

namespace Adds

variable {h' : Heap} {f : Frame} (ha : h.Adds f h')
include ha

theorem frame_of_lt (hi : i < h.size) : h'.frame i = h.frame i := by
  rw [ha.frame, if_neg (Nat.ne_of_lt hi)]

theorem frame_self : h'.frame h.size = f := by rw [ha.frame, if_pos rfl]

theorem mem_frame {b : String × Value} (hb : b ∈ h'.frame i) : b ∈ f ∨ b ∈ h.frame i := by
  rw [ha.frame] at hb
  split at hb
  · exact .inl hb
  · exact .inr hb

end Adds

theorem get?_frame_set (scope : Scope) (name : String) (value : Value) (i : Nat) (other : String) :
    ((h.set scope name value).frame i).get? other =
      if (i = scope.frame ∧ i < h.size) ∧ other = name then some value
      else (h.frame i).get? other := by
  by_cases hi : i = scope.frame
  · subst hi
    by_cases hlt : scope.frame < h.size
    · rw [frame_set_self name value hlt]
      by_cases hother : other = name
      · rw [if_pos ⟨⟨rfl, hlt⟩, hother⟩, hother, Frame.get?_set_self]
      · rw [if_neg fun hyes => hother hyes.2, Frame.get?_set_of_ne hother]
    · have hle := Nat.le_of_not_lt hlt
      rw [if_neg fun hyes => hlt hyes.1.2, frame_of_size_le hle,
        frame_of_size_le (by rw [size_set]; exact hle)]
  · rw [if_neg fun hyes => hi hyes.1.1, frame_set_of_ne name value hi]

theorem mem_frame_set {scope : Scope} {name : String} {value : Value} {b : String × Value}
    (hb : b ∈ (h.set scope name value).frame i) : b = (name, value) ∨ b ∈ h.frame i := by
  by_cases hi : i = scope.frame
  · subst hi
    by_cases hlt : scope.frame < h.size
    · rw [frame_set_self name value hlt] at hb
      exact (List.mem_cons.mp hb).imp_right fun hmem => (List.mem_filter.mp hmem).1
    · rw [frame_of_size_le (by rw [size_set]; omega)] at hb
      cases hb
  · rw [frame_set_of_ne name value hi] at hb
    exact .inr hb

theorem exists_of_find?_eq_some {scope : Scope} {name : String} {value : Value}
    (hfound : h.find? scope name = some value) :
    ∃ i ∈ chain scope, (name, value) ∈ h.frame i := by
  obtain ⟨i, hi, hget⟩ := List.exists_of_findSome?_eq_some hfound
  obtain ⟨before, after, hframe, -⟩ := List.lookup_eq_some_iff.mp hget
  exact ⟨i, hi, by simp [hframe]⟩

theorem of_resolve?_eq_some_chain {scope : Scope} {name : String} {value : Value}
    (hfound : h.resolve? scope name = some value) :
    (∃ i ∈ chain scope, (name, value) ∈ h.frame i) ∨ ∃ primitive, value = .builtin primitive := by
  rcases Option.or_eq_some_iff.mp hfound with hbound | ⟨-, hbuiltin⟩
  · exact .inl (exists_of_find?_eq_some hbound)
  · obtain ⟨primitive, -, rfl⟩ := Option.map_eq_some_iff.mp hbuiltin
    exact .inr ⟨primitive, rfl⟩

theorem of_resolve?_eq_some {scope : Scope} {name : String} {value : Value}
    (hfound : h.resolve? scope name = some value) :
    (∃ i, (name, value) ∈ h.frame i) ∨ ∃ primitive, value = .builtin primitive := by
  rcases of_resolve?_eq_some_chain hfound with ⟨i, -, hi⟩ | hbuiltin
  · exact .inl ⟨i, hi⟩
  · exact .inr hbuiltin

theorem find?_congr {h' : Heap} {scope : Scope} {name : String}
    (hget : ∀ i ∈ chain scope, (h.frame i).get? name = (h'.frame i).get? name) :
    h.find? scope name = h'.find? scope name := by
  exact Frame.findSome?_congr hget

theorem resolve?_congr {h' : Heap} {scope : Scope}
    (hframes : ∀ i ∈ chain scope, h.frame i = h'.frame i) (name : String) :
    h.resolve? scope name = h'.resolve? scope name := by
  have hfind : h.find? scope name = h'.find? scope name :=
    find?_congr fun i hi => by rw [hframes i hi]
  rw [resolve?, resolve?, hfind]

end MonkeyLang.Heap
