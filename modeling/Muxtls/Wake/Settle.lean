import Muxtls.Receiver.Basic
import Muxtls.Wake.Calm

namespace Muxtls

/-- A read of the direction does not wait: the peer has ended it, or the connection is closed. -/
def RecvDir.settled (d : RecvDir) : Bool := d.terminal || d.inbound.connectionClosed

namespace Inbox

variable (b : Inbox) (id : Nat)

end Inbox

namespace Receiver

variable {l : Limits} {isClient : Bool} {v v' : Receiver} {log evs : List Event} {id : Nat}

/-- A stream leaves the map when the peer has ended its direction, or with the connection. -/
def Kept (v : Receiver) : Prop := ∀ id, v.ids.Opened id → id ∈ v.streams ∨ (v.inbox.dir id).settled = true

/-- A step that rewrites one direction. -/
theorem Kept.update (h : v.Kept) {d : RecvDir} (hi : v'.ids = v.ids) (hs : v'.streams = v.streams)
    (hdir : v'.inbox.dir = Function.update v.inbox.dir id d)
    (hd : id ∈ v.streams ∨ d.settled = (v.inbox.dir id).settled) : v'.Kept := by
  intro j hj
  rw [hi] at hj
  rw [hs, hdir]
  by_cases he : j = id
  · subst he
    rw [Function.update_self]
    rcases hd with hmem | hsame
    · exact .inl hmem
    · rw [hsame]
      exact h j hj
  · rw [Function.update_of_ne he]
    exact h j hj

theorem Kept.create (h : v.Kept) {ids : Ids}
    (hid : ∀ j, ids.Opened j ↔ v.ids.Opened j ∨ j = id) (holder : Holder) :
    (v.create ids id holder).Kept := by
  intro j hj
  simp only [Receiver.create, Inbox.create_dir, List.mem_append, List.mem_singleton]
  by_cases he : j = id
  · exact .inl (.inr he)
  · rw [Function.update_of_ne he]
    exact (h j (((hid j).mp hj).resolve_right he)).imp_left .inl

end Receiver
end Muxtls
