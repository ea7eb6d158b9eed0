import Mathlib.Data.List.Basic

/-! Maps that keep the order in which keys were first set. -/
namespace Wi

/-- Keys with their values, in insertion order. -/
abbrev Map (κ ν : Type) := List (κ × ν)

namespace Map
variable {κ ν : Type} [DecidableEq κ]

def get : Map κ ν → κ → Option ν
  | [], _ => none
  | (key, value) :: rest, wanted => if key = wanted then some value else get rest wanted

/-- A key that is present keeps its place. -/
def set : Map κ ν → κ → ν → Map κ ν
  | [], key, value => [(key, value)]
  | (held, old) :: rest, key, value =>
    if held = key then (key, value) :: rest else (held, old) :: set rest key value

def delete : Map κ ν → κ → Map κ ν
  | [], _ => []
  | (held, value) :: rest, key => if held = key then delete rest key else (held, value) :: delete rest key

def values (map : Map κ ν) : List ν := map.map Prod.snd

@[simp] theorem get_nil (key : κ) : get ([] : Map κ ν) key = none := rfl

theorem mem_of_get {map : Map κ ν} {key : κ} {value : ν} (found : get map key = some value) : (key, value) ∈ map := by
  induction map with
  | nil => cases found
  | cons first rest ih =>
    obtain ⟨held, old⟩ := first
    rw [get] at found
    split at found
    next same =>
      cases found
      exact same ▸ List.mem_cons_self
    · exact List.mem_cons_of_mem _ (ih found)

theorem get_set (map : Map κ ν) (key wanted : κ) (value : ν) :
    get (set map key value) wanted = if key = wanted then some value else get map wanted := by
  induction map with
  | nil => rfl
  | cons first rest ih =>
    obtain ⟨held, old⟩ := first
    by_cases same : held = key
    · subst same
      by_cases found : held = wanted <;> simp [set, get, found]
    · rw [set, if_neg same, get, get, ih]
      by_cases found : held = wanted
      · rw [if_pos found, if_pos found, if_neg fun other => same (found.trans other.symm)]
      · rw [if_neg found, if_neg found]

@[simp] theorem get_set_self (map : Map κ ν) (key : κ) (value : ν) : get (set map key value) key = some value := by
  rw [get_set, if_pos rfl]

theorem get_set_ne {map : Map κ ν} {key wanted : κ} {value : ν} (apart : key ≠ wanted) :
    get (set map key value) wanted = get map wanted := by
  rw [get_set, if_neg apart]

theorem get_delete (map : Map κ ν) (key wanted : κ) :
    get (delete map key) wanted = if key = wanted then none else get map wanted := by
  induction map with
  | nil => simp [delete]
  | cons first rest ih =>
    obtain ⟨held, old⟩ := first
    by_cases same : held = key
    · subst same
      by_cases found : held = wanted <;> simp_all [delete, get]
    · rw [delete, if_neg same, get, get, ih]
      by_cases found : held = wanted
      · rw [if_pos found, if_pos found, if_neg fun other => same (found.trans other.symm)]
      · rw [if_neg found, if_neg found]

end Map
end Wi
