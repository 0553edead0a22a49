import Muxtls.Ledger.Step

namespace Muxtls
namespace Ledger

variable {v v' v'' : Ledger} {evs evs' : List Event} {id : Nat}

/-- A list of task steps as a task gets it: nothing is half done, and what completes a stream also
tries to retire it. -/
structure Starts (ops : List TaskOp) : Prop where
  remove : ∀ id, .remove id ∉ ops
  stop : ∀ id, .stopSending id ∉ ops
  order : ∀ id before after, ops = before ++ .complete id :: after → .retire id ∈ after

/-- The ids are well formed, and the writer takes a frame only when it has nothing else to do. -/
structure Tidy (v : Ledger) : Prop where
  ids : v.ids.WF
  hand : v.hand ≠ none → v.todo .writer = []

/-- What holds of the permits, the map and the lists across steps in which no task works. -/
structure Rests (v : Ledger) (evs : List Event) (v' : Ledger) : Prop where
  opened : ∀ id, v.ids.Opened id → v'.ids.Opened id
  kept : ∀ id, v.ids.Opened id → (v'.life id).openPermit = (v.life id).openPermit ∧
    (v'.life id).sendComplete = (v.life id).sendComplete
  fresh : ∀ id, ¬ v.ids.Opened id → v'.ids.Opened id →
    (v'.life id).openPermit = true ∧ (v'.life id).sendComplete = false
  shut : v.shut = true → v'.shut = true
  streams : ∀ id, v.ids.Opened id → id ∈ v'.streams → id ∈ v.streams
  left : ∀ id, v'.ids.Opened id → id ∉ v'.streams → v'.shut = true ∨ v.ids.Opened id ∧ id ∉ v.streams
  terminal : ∀ id, v.ids.Opened id → v'.terminal id = v.terminal id ∨
    v'.terminal id = true ∧ .retire id ∈ v'.todo .reader
  todo : ∀ task, v'.todo task = v.todo task ∨ Starts (v'.todo task) ∧ v.todo task = []
  sent : ∀ f, .sent f ∈ evs → ∀ op ∈ f.terminalOps, op ∈ v'.todo .writer

/-- A step of the ledger in which no task works. -/
structure Idles (v : Ledger) (evs : List Event) (v' : Ledger) : Prop where
  step : LedgerStep v evs v'
  rests : v.Tidy → v.Rests evs v' ∧ v'.Tidy

/-- The ledger without the work of the tasks. -/
def idle (l : Limits) (isClient : Bool) : Machine Ledger Event where
  init := (machine l isClient).init
  step := Idles

theorem starts_nil : Starts [] := ⟨by simp, by simp, by simp⟩

theorem starts_terminalOps (f : Frame) : Starts f.terminalOps := by
  unfold Frame.terminalOps
  split
  · refine ⟨by simp, by simp, fun id before after h => ?_⟩
    cases before with
    | nil => cases h; exact List.mem_singleton_self _
    | cons op before => cases before <;> simp at h
  · refine ⟨by simp, by simp, fun id before after h => ?_⟩
    cases before with
    | nil => cases h; exact List.mem_singleton_self _
    | cons op before => cases before <;> simp at h
  · exact starts_nil

/-- A list without a completion, a removal and a STOP_SENDING. -/
theorem starts_of (ops : List TaskOp) (hr : ∀ id, .remove id ∉ ops) (hs : ∀ id, .stopSending id ∉ ops)
    (hc : ∀ id, .complete id ∉ ops) : Starts ops := by
  refine ⟨hr, hs, fun id before after h => ?_⟩
  subst h
  exact absurd (List.mem_append_right before List.mem_cons_self) (hc id)

/-- Steps that write neither to the permits, the map and the marks nor to a list. -/
theorem Rests.same (hids : v'.ids = v.ids)
    (hlife : ∀ id, (v'.life id).openPermit = (v.life id).openPermit ∧
      (v'.life id).sendComplete = (v.life id).sendComplete)
    (hshut : v'.shut = v.shut) (hs : v'.streams = v.streams) (ht : v'.terminal = v.terminal) (htodo : v'.todo = v.todo)
    (hev : ∀ f, .sent f ∉ evs) : v.Rests evs v' where
  opened _ h := hids ▸ h
  kept id _ := hlife id
  fresh _ hn h := absurd (hids ▸ h) hn
  shut h := hshut.trans h
  streams _ _ h := hs ▸ h
  left _ h hm := .inr ⟨hids ▸ h, hs ▸ hm⟩
  terminal id _ := .inl (congrFun ht id)
  todo task := .inl (congrFun htodo task)
  sent f h := absurd h (hev f)

theorem Idles.same (hstep : LedgerStep v evs v') (hids : v'.ids = v.ids)
    (hlife : ∀ id, (v'.life id).openPermit = (v.life id).openPermit ∧
      (v'.life id).sendComplete = (v.life id).sendComplete)
    (hshut : v'.shut = v.shut) (hs : v'.streams = v.streams) (ht : v'.terminal = v.terminal) (htodo : v'.todo = v.todo)
    (hh : v'.hand = v.hand) (hev : ∀ f, .sent f ∉ evs) : v.Idles evs v' where
  step := hstep
  rests h := ⟨.same hids hlife hshut hs ht htodo hev, by rw [hids]; exact h.ids, by rw [hh, htodo]; exact h.hand⟩

theorem setLife_marks (id : Nat) (life : StreamLife) (hp : life.openPermit = (v.life id).openPermit)
    (hc : life.sendComplete = (v.life id).sendComplete) (j : Nat) :
    ((v.setLife id life).life j).openPermit = (v.life j).openPermit ∧
      ((v.setLife id life).life j).sendComplete = (v.life j).sendComplete := by
  by_cases hj : j = id
  · subst hj
    simp [setLife, hp, hc]
  · simp [setLife, hj]

theorem sent_not_mem_idle (h : ∀ e ∈ evs, e.Idle) (f : Frame) : .sent f ∉ evs := fun hm => h _ hm

/-- A new stream has its permit and is in the map. -/
theorem Rests.create (ids : Ids) (id : Nat) (life : StreamLife) (ho : ∀ j, ids.Opened j ↔ v.ids.Opened j ∨ j = id)
    (hn : ¬ v.ids.Opened id) (hp : life.openPermit = true) (hc : life.sendComplete = false)
    (hids : v'.ids = ids) (hlife : v'.life = Function.update v.life id life) (hshut : v'.shut = v.shut)
    (hs : v'.streams = v.streams ++ [id]) (ht : v'.terminal = Function.update v.terminal id false)
    (htodo : v'.todo = v.todo) : v.Rests [] v' where
  opened j h := by rw [hids]; exact (ho j).mpr (.inl h)
  kept j h := by
    have hj : j ≠ id := fun he => hn (he ▸ h)
    rw [hlife, Function.update_of_ne hj]
    exact ⟨rfl, rfl⟩
  fresh j hn' h := by
    rw [hids] at h
    obtain rfl : j = id := ((ho j).mp h).resolve_left hn'
    rw [hlife, Function.update_self]
    exact ⟨hp, hc⟩
  shut h := hshut.trans h
  streams j h hm := by
    rw [hs] at hm
    rcases List.mem_append.mp hm with hm | hm
    · exact hm
    · exact absurd (List.mem_singleton.mp hm ▸ h) hn
  left j h hm := by
    rw [hids] at h
    rw [hs] at hm
    have hj : j ≠ id := fun he => hm (List.mem_append_right _ (List.mem_singleton.mpr he))
    exact .inr ⟨((ho j).mp h).resolve_right hj, fun hmem => hm (List.mem_append_left _ hmem)⟩
  terminal j h := by
    have hj : j ≠ id := fun he => hn (he ▸ h)
    rw [ht, Function.update_of_ne hj]
    exact .inl rfl
  todo task := .inl (congrFun htodo task)
  sent f h := absurd h (by simp)

namespace Idles

theorem quiet (v : Ledger) (log : List Event) (h : ∀ e ∈ log, e.Idle) : v.Idles log v :=
  same (.quiet v log h) rfl (fun _ => ⟨rfl, rfl⟩) rfl rfl rfl rfl rfl (sent_not_mem_idle h)

theorem close (v : Ledger) : v.Idles [] { v with closed := true } :=
  same (.close v) rfl (fun _ => ⟨rfl, rfl⟩) rfl rfl rfl rfl rfl (by simp)

theorem shut (v : Ledger) : v.Idles [] { v with closed := true, shut := true, streams := [] } where
  step := .shut v
  rests h := ⟨{
    opened := fun _ h => h
    kept := fun _ _ => ⟨rfl, rfl⟩
    fresh := fun _ hn h => absurd h hn
    shut := fun _ => rfl
    streams := fun _ _ hm => absurd hm (by simp)
    left := fun _ _ _ => .inl rfl
    terminal := fun _ _ => .inl rfl
    todo := fun _ => .inl rfl
    sent := fun f h => absurd h (by simp) }, { h with }⟩

theorem openStart (v : Ledger) (n : Nat) (hp : v.permits = n + 1) (ho : v.opening = false) :
    v.Idles [] { v with permits := n, opening := true } :=
  same (.openStart v n hp ho) rfl (fun _ => ⟨rfl, rfl⟩) rfl rfl rfl rfl rfl (by simp)

theorem openFail (v : Ledger) (ho : v.opening = true) :
    v.Idles [] { v with permits := v.permits + 1, opening := false } :=
  same (.openFail v ho) rfl (fun _ => ⟨rfl, rfl⟩) rfl rfl rfl rfl rfl (by simp)

theorem openLocal (v : Ledger) (ho : v.opening = true) (hid : v.ids.nextLocal ≤ varIntMax) :
    v.Idles []
      { v.create v.ids.takeLocal v.ids.nextLocal { openPermit := true, sendHandles := 1, recvHandles := 1 } with
        opening := false } where
  step := .openLocal v ho hid
  rests h := ⟨.create v.ids.takeLocal v.ids.nextLocal _ (Ids.opened_takeLocal h.ids)
    (Ids.not_opened_nextLocal h.ids) rfl rfl rfl rfl rfl rfl rfl rfl, h.ids.takeLocal hid, h.hand⟩

theorem openRemote (v : Ledger) (n : Nat) (incoming : List Nat) (hp : v.permits = n + 1)
    (hid : v.ids.nextRemote ≤ varIntMax)
    (hin : incoming = v.incoming ∨ incoming = v.incoming ++ [v.ids.nextRemote]) :
    v.Idles []
      { v.create v.ids.takeRemote v.ids.nextRemote { openPermit := true } with
        permits := n, incoming := incoming } where
  step := .openRemote v n incoming hp hid hin
  rests h := ⟨.create v.ids.takeRemote v.ids.nextRemote _ (Ids.opened_takeRemote h.ids)
    (Ids.not_opened_nextRemote h.ids) rfl rfl rfl rfl rfl rfl rfl rfl, h.ids.takeRemote hid, h.hand⟩

theorem accept (v : Ledger) (id : Nat) (incoming : List Nat) (h : v.incoming = id :: incoming) :
    v.Idles []
      { v.setLife id
          { v.life id with
            sendHandles := (v.life id).sendHandles + 1
            recvHandles := (v.life id).recvHandles + 1 } with
        incoming := incoming } :=
  same (.accept v id incoming h) rfl (setLife_marks id _ rfl rfl) rfl rfl rfl rfl rfl (by simp)

theorem dropSend (v : Ledger) (id : Nat) (h : (v.life id).sendHandles ≠ 0) :
    v.Idles []
      (v.setLife id
        { v.life id with
          sendHandles := (v.life id).sendHandles - 1
          sendDropped := (v.life id).sendDropped || (v.life id).sendHandles == 1 }) :=
  same (.dropSend v id h) rfl (setLife_marks id _ rfl rfl) rfl rfl rfl rfl rfl (by simp)

theorem dropRecv (v : Ledger) (id : Nat) (h : (v.life id).recvHandles ≠ 0) :
    v.Idles []
      (v.setLife id
        { v.life id with
          recvHandles := (v.life id).recvHandles - 1
          recvDropped := (v.life id).recvDropped || (v.life id).recvHandles == 1 }) :=
  same (.dropRecv v id h) rfl (setLife_marks id _ rfl rfl) rfl rfl rfl rfl rfl (by simp)

theorem emit (v : Ledger) (f : Frame) (hd : v.writerDone = false) (hh : v.hand = none)
    (ht : v.todo .writer = []) : v.Idles [.emitted f] { v with hand := some f } where
  step := .emit v f hd hh ht
  rests h := ⟨.same rfl (fun _ => ⟨rfl, rfl⟩) rfl rfl rfl rfl (by simp), h.ids, fun _ => ht⟩

theorem received (v : Ledger) (f : Frame) (hd : v.readerDone = false) (ht : v.todo .reader = []) :
    v.Idles [.accepted f] v :=
  same (.received v f hd ht) rfl (fun _ => ⟨rfl, rfl⟩) rfl rfl rfl rfl rfl (by simp)

end Idles

/-- A task gets a list of steps; the marks may change with it. -/
theorem Rests.assign (task : Task) (ops : List TaskOp) (hops : Starts ops) (hids : v'.ids = v.ids)
    (hlife : v'.life = v.life) (hshut : v'.shut = v.shut) (hs : v'.streams = v.streams)
    (ht : ∀ id, v'.terminal id = v.terminal id ∨ v'.terminal id = true ∧ .retire id ∈ v'.todo .reader)
    (htodo : v'.todo = Function.update v.todo task ops) (hempty : v.todo task = [])
    (hev : ∀ f, .sent f ∈ evs → ∀ op ∈ f.terminalOps, op ∈ v'.todo .writer) : v.Rests evs v' where
  opened id h := hids ▸ h
  kept id _ := by rw [hlife]; exact ⟨rfl, rfl⟩
  fresh id hn h := absurd (hids ▸ h) hn
  shut h := hshut.trans h
  streams id _ h := hs ▸ h
  left id h hm := .inr ⟨hids ▸ h, hs ▸ hm⟩
  terminal id _ := ht id
  todo t := by
    by_cases he : t = task
    · subst he
      rw [htodo, Function.update_self]
      exact .inr ⟨hops, hempty⟩
    · rw [htodo, Function.update_of_ne he]
      exact .inl rfl
  sent := hev

namespace Idles

theorem cleanup (v : Ledger) (order : List Nat) (h : v.todo .cleanup = []) :
    v.Idles [] (v.setTodo .cleanup (order.flatMap fun id => [.cleanSend id, .cleanRecv id])) where
  step := .cleanup v order h
  rests ht :=
    ⟨.assign .cleanup _ (starts_of _ (by simp) (by simp) (by simp)) rfl rfl rfl rfl (fun _ => .inl rfl) rfl h
      (by simp), ht.ids, ht.hand⟩

theorem sent (v : Ledger) (f : Frame) (hh : v.hand = some f) :
    v.Idles [.sent f] ({ v with hand := none }.setTodo .writer f.terminalOps) where
  step := .sent v f hh
  rests ht := by
    refine ⟨.assign .writer _ (starts_terminalOps f) rfl rfl rfl rfl (fun _ => .inl rfl) rfl
      (ht.hand (by simp [hh])) ?_, ht.ids, fun hn => absurd rfl hn⟩
    intro g hg op hop
    obtain rfl : g = f := by simpa using hg
    simpa [setTodo] using hop

theorem stopWriter (v : Ledger) (h : v.hand ≠ none ∨ v.todo .writer = []) :
    v.Idles [] ({ v with writerDone := true, hand := none }.setTodo .writer [TaskOp.markClosed]) where
  step := .stopWriter v h
  rests ht := ⟨.assign .writer _ (starts_of _ (by simp) (by simp) (by simp)) rfl rfl rfl rfl (fun _ => .inl rfl) rfl
    (h.elim ht.hand id) (by simp), ht.ids, fun hn => absurd rfl hn⟩

theorem ended (v : Ledger) (f : Frame) (id : Nat) (hd : v.readerDone = false) (ht : v.todo .reader = [])
    (hs : id ∈ v.streams) :
    v.Idles [.accepted f]
      ({ v with terminal := Function.update v.terminal id true }.setTodo .reader [.retire id]) where
  step := .ended v f id hd ht hs
  rests h := by
    refine ⟨.assign .reader _ (starts_of _ (by simp) (by simp) (by simp)) rfl rfl rfl rfl (fun j => ?_) rfl ht
      (by simp), h.ids, h.hand⟩
    by_cases hj : j = id
    · subst hj
      exact .inr ⟨Function.update_self .., by simp [setTodo]⟩
    · exact .inl (Function.update_of_ne hj ..)

theorem stopReader (v : Ledger) (ops : List TaskOp) (h : ops = [] ∨ ∃ reason, ops = [.failClose reason])
    (hempty : v.todo .reader = []) :
    v.Idles [] ({ v with readerDone := true }.setTodo .reader (ops ++ [TaskOp.markClosed])) where
  step := .stopReader v ops h hempty
  rests ht := by
    refine ⟨.assign .reader _ (starts_of _ ?_ ?_ ?_) rfl rfl rfl rfl (fun _ => .inl rfl) rfl hempty
      (by simp), ht.ids, ht.hand⟩ <;>
    rcases h with rfl | ⟨reason, rfl⟩ <;> simp

end Idles

theorem Rests.mem_todo (h : v.Rests evs v') {task : Task} {op : TaskOp} (hm : op ∈ v.todo task) :
    op ∈ v'.todo task := by
  rcases h.todo task with he | ⟨-, he⟩
  · exact he ▸ hm
  · rw [he] at hm
    cases hm

theorem Rests.trans (h : v.Rests evs v') (h' : v'.Rests evs' v'') : v.Rests (evs ++ evs') v'' where
  opened id ho := h'.opened id (h.opened id ho)
  kept id ho := by
    obtain ⟨hp, hc⟩ := h.kept id ho
    obtain ⟨hp', hc'⟩ := h'.kept id (h.opened id ho)
    exact ⟨hp'.trans hp, hc'.trans hc⟩
  fresh id hn ho := by
    by_cases hm : v'.ids.Opened id
    · rw [(h'.kept id hm).1, (h'.kept id hm).2]
      exact h.fresh id hn hm
    · exact h'.fresh id hm ho
  shut hs := h'.shut (h.shut hs)
  streams id ho hm := h.streams id ho (h'.streams id (h.opened id ho) hm)
  left id ho hm := by
    rcases h'.left id ho hm with hs | ⟨ho', hm'⟩
    · exact .inl hs
    · exact (h.left id ho' hm').imp_left h'.shut
  terminal id ho := by
    rcases h'.terminal id (h.opened id ho) with he | he
    · rw [he]
      exact (h.terminal id ho).imp_right fun ⟨ht, hr⟩ => ⟨ht, h'.mem_todo hr⟩
    · exact .inr he
  todo task := by
    rcases h.todo task with he | ⟨hs, he⟩
    · rcases h'.todo task with he' | ⟨hs', he'⟩
      · exact .inl (he'.trans he)
      · exact .inr ⟨hs', he ▸ he'⟩
    · rcases h'.todo task with he' | ⟨hs', -⟩
      · exact .inr ⟨he' ▸ hs, he⟩
      · exact .inr ⟨hs', he⟩
  sent f hm op hop := by
    rcases List.mem_append.mp hm with hm | hm
    · exact h'.mem_todo (h.sent f hm op hop)
    · exact h'.sent f hm op hop

/-- A run of such steps. -/
theorem rests_of_steps {l : Limits} {isClient : Bool} (h : (idle l isClient).Steps v evs v') (ht : v.Tidy) :
    v.Rests evs v' ∧ v'.Tidy := by
  induction h with
  | refl v => exact ⟨.same rfl (fun _ => ⟨rfl, rfl⟩) rfl rfl rfl rfl (by simp), ht⟩
  | cons hs _ ih =>
    obtain ⟨h₁, ht₁⟩ := hs.rests ht
    obtain ⟨h₂, ht₂⟩ := ih ht₁
    exact ⟨h₁.trans h₂, ht₂⟩

end Ledger
end Muxtls
