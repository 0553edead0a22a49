import Muxtls.Group.Writes
import Muxtls.Wake.Calls
import Muxtls.Wake.Settle

namespace Muxtls
namespace Endpoint

variable {l : Limits} {isClient : Bool} {e : Endpoint} {log : List Event} {id : Nat} {a : Act}

end Endpoint

namespace TaskGroup

variable {l : Limits} {isClient keepalive : Bool} {g g' : TaskGroup} {a : GroupAct} {log evs : List Event}
  {x : Exec (waitLoops.step step)} {w : Watched TaskGroup GroupWaiter} {id : Nat}

theorem looks_read (h : waitLoops.looks a = some (.inner (.read id))) :
    ∃ c, a = .act c ∧ Endpoint.looks c = some (.read id) := by
  cases a with
  | act c =>
    simp only [waitLoops, looks, Option.map_eq_some_iff] at h
    obtain ⟨i, hi, hr⟩ := h
    cases hr
    exact ⟨c, rfl, hi⟩
  | _ => simp [waitLoops, looks] at h

end TaskGroup
end Muxtls
