import Mathlib.Logic.Function.Basic
import RecordStore.Dict
import Std.Data.ExtTreeMap.Lemmas
import Std.Data.DTreeMap.Internal.WF.Lemmas

/-!
# Dictionaries and their lists

A dictionary is determined by the list of its entries, and what it lists are the keys and the values
of these.

* `ofList_of_perm`, `ofList_toList`: the dictionary of its own entries, in any order, is itself.
* `getElem?_insert_eq`, `getElem?_erase_eq`: what is found after a change.
* `pairwise_keys`: the keys are listed in ascending order.
* `values_eq`: the values listed are those of the entries, in the same order.
-/

namespace RecordStore.Dict

variable {α : Type}

theorem values_eq (d : Dict α) : d.values = d.toList.map Prod.snd := by
  obtain ⟨⟨q⟩⟩ := d
  induction q using Quotient.inductionOn with
  | h tree =>
    show tree.inner.values = (Std.DTreeMap.Internal.Impl.Const.toList tree.inner).map Prod.snd
    rw [Std.DTreeMap.Internal.Impl.values_eq_map_snd,
      Std.DTreeMap.Internal.Impl.Const.toList_eq_toListModel_map, List.map_map]
    rfl

theorem length_values (d : Dict α) : d.values.length = d.size := by
  rw [values_eq, List.length_map, Std.ExtTreeMap.length_toList]

/-- Of the entries of a dictionary in any order the same dictionary is made. -/
theorem ofList_of_perm {d : Dict α} {entries : List (String × α)} (h : entries.Perm d.toList) :
    (.ofList entries : Dict α) = d := by
  have hdistinct : entries.Pairwise fun a b => ¬ compare a.1 b.1 = .eq :=
    (h.pairwise_iff fun hab hba => hab (Std.OrientedCmp.eq_symm hba)).mpr
      Std.ExtTreeMap.distinct_keys_toList
  refine Std.ExtTreeMap.ext_getElem? fun key => ?_
  cases hd : d[key]? with
  | some value =>
    exact Std.ExtTreeMap.getElem?_ofList_of_mem Std.compare_self hdistinct
      (h.mem_iff.mpr (Std.ExtTreeMap.mem_toList_iff_getElem?_eq_some.mpr hd))
  | none =>
    apply Std.ExtTreeMap.getElem?_ofList_of_contains_eq_false
    have hkeys : (entries.map Prod.fst).Perm d.keys := by
      rw [← Std.ExtTreeMap.map_fst_toList_eq_keys]
      exact h.map Prod.fst
    rw [hkeys.contains_eq]
    simpa using hd

theorem ofList_toList (d : Dict α) : (.ofList d.toList : Dict α) = d :=
  ofList_of_perm (.refl _)

/-- What is found in a dictionary with one more entry. -/
theorem getElem?_insert_eq (d : Dict α) (key : String) (value : α) :
    (fun k => (d.insert key value)[k]?) = Function.update (d[·]?) key (some value) := by
  funext k
  rw [Std.ExtTreeMap.getElem?_insert, Function.update_apply]
  simp only [Std.compare_eq_iff_eq, @eq_comm String key]

/-- What is found in a dictionary with one entry less. -/
theorem getElem?_erase_eq (d : Dict α) (key : String) :
    (fun k => (d.erase key)[k]?) = Function.update (d[·]?) key none := by
  funext k
  rw [Std.ExtTreeMap.getElem?_erase, Function.update_apply]
  simp only [Std.compare_eq_iff_eq, @eq_comm String key]

theorem getElem?_insert_of_ne {key k : String} (h : k ≠ key) (d : Dict α) (value : α) :
    (d.insert key value)[k]? = d[k]? :=
  (congrFun (getElem?_insert_eq d key value) k).trans (Function.update_of_ne h _ _)

theorem getElem?_erase_of_ne {key k : String} (h : k ≠ key) (d : Dict α) :
    (d.erase key)[k]? = d[k]? :=
  (congrFun (getElem?_erase_eq d key) k).trans (Function.update_of_ne h _ _)

/-- Removing what is not there changes nothing. -/
theorem erase_of_not_mem {d : Dict α} {key : String} (h : key ∉ d) : d.erase key = d := by
  refine Std.ExtTreeMap.ext_getElem? fun k => ?_
  rw [Std.ExtTreeMap.getElem?_erase]
  split
  · rename_i he
    rw [← Std.compare_eq_iff_eq.mp he]
    exact (Std.ExtTreeMap.getElem?_eq_none h).symm
  · rfl

theorem nodup_keys (d : Dict α) : d.keys.Nodup :=
  Std.ExtTreeMap.distinct_keys.imp fun h he => h (Std.compare_eq_iff_eq.mpr he)

/-- Keys are listed in ascending order. -/
theorem pairwise_keys (d : Dict α) : d.keys.Pairwise (· < ·) := by
  have h : d.keys.Pairwise fun a b => compare a b = .lt := Std.ExtTreeMap.ordered_keys
  exact h.imp fun hab => compareOfLessAndEq_eq_lt.mp hab

theorem mem_keys_iff_isSome (d : Dict α) (key : String) :
    key ∈ d.keys ↔ d[key]?.isSome = true := by
  rw [Std.ExtTreeMap.mem_keys, Std.ExtTreeMap.isSome_getElem?_iff_mem]

end RecordStore.Dict
