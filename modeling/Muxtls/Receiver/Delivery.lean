import Muxtls.Receiver.Basic

namespace Muxtls

/-- What one receive direction shows: a frame accepted, bytes returned by a read, or the end of the
stream reported by one. -/
inductive InEvent where
  | took (f : Frame)
  | handed (data : Bytes)
  | ended
deriving DecidableEq

def inEvent (id : Nat) : Event → Option InEvent
  | .accepted f => if f.sendsOn id then some (.took f) else none
  | .handed j data => if j = id then some (.handed data) else none
  | .ended j => if j = id then some .ended else none
  | _ => none

/-- The frames a direction has accepted. -/
def tooks (w : List InEvent) : List Frame :=
  w.filterMap fun
    | .took f => some f
    | _ => none

/-- The bytes the application has been handed. -/
def handedBytes (w : List InEvent) : Bytes :=
  w.flatMap fun
    | .handed data => data
    | _ => []

/-- The events of a read. -/
def readIn : Inbox.ReadOutcome → List InEvent
  | .bytes data => [.handed data]
  | .ended => [.ended]
  | _ => []

section Logs

variable (w w' : List InEvent)

@[simp] theorem tooks_append : tooks (w ++ w') = tooks w ++ tooks w' := List.filterMap_append

@[simp] theorem handedBytes_append : handedBytes (w ++ w') = handedBytes w ++ handedBytes w' :=
  List.flatMap_append

@[simp] theorem tooks_took (f : Frame) : tooks [.took f] = [f] := rfl

@[simp] theorem handedBytes_took (f : Frame) : handedBytes [.took f] = [] := rfl

@[simp] theorem tooks_readIn (r : Inbox.ReadOutcome) : tooks (readIn r) = [] := by
  cases r <;> rfl

@[simp] theorem handedBytes_readIn (r : Inbox.ReadOutcome) : handedBytes (readIn r) = RecvDir.out r := by
  cases r with
  | bytes data => exact List.append_nil data
  | _ => rfl

theorem ended_mem_readIn (r : Inbox.ReadOutcome) (h : .ended ∈ readIn r) : r = .ended := by
  cases r with
  | bytes data => simp [readIn] at h
  | ended => rfl
  | failed error => cases h
  | pending => cases h

end Logs

/-- One receive direction with its holder and the API it is read through. -/
structure RecvSide where
  dir : RecvDir
  holder : Holder
  mode : Nat

/-- What a step of the receiver can do to one direction. -/
inductive SideStep : RecvSide → List InEvent → RecvSide → Prop
  | skip (s : RecvSide) : SideStep s [] s
  | closed (s : RecvSide) (closed : Bool) :
    SideStep s []
      { s with dir := { s.dir with inbound := { s.dir.inbound with connectionClosed := closed } } }
  | hold (s : RecvSide) (h : s.holder = .waiting) : SideStep s [] { s with holder := .held }
  | drop (s : RecvSide) (h : s.holder = .held) :
    SideStep s []
      { s with dir := { s.dir with handle := { s.dir.handle with readBuf := none } }, holder := .gone }
  | discard (s : RecvSide) (h : s.holder = .gone) :
    SideStep s []
      { s with dir := { s.dir with inbound := { s.dir.inbound with chunks := [] }, discarded := true } }
  | free (s : RecvSide) (h : s.holder = .gone) :
    SideStep s [] { s with dir := { s.dir with inbound := { s.dir.inbound with chunks := [] } } }
  | readWhole (s : RecvSide) (r : Inbox.ReadOutcome) (d' : RecvDir) (h : s.holder = .held) (hm : s.mode ≠ 2)
    (hh : d'.handle = s.dir.handle) (hr : s.dir.handle.readBuf = none → s.dir.Reads r d') :
    SideStep s (readIn r) { s with dir := d', mode := 1 }
  | pollRead (s : RecvSide) (r : Inbox.ReadOutcome) (d' : RecvDir) (h : s.holder = .held)
    (hr : s.dir.Reads r d') : SideStep s (readIn r) { s with dir := d', mode := 2 }
  | stream (s : RecvSide) (streamId : VarInt) (fin : Bool) (payload : Bytes) (chunks : List InboundChunk)
    (ht : s.dir.terminal = false)
    (hc : s.dir.discarded = true ∧ chunks = s.dir.inbound.chunks ∨
      s.dir.discarded = false ∧ Inbox.bytesOf chunks = Inbox.bytesOf s.dir.inbound.chunks ++ payload) :
    SideStep s [.took (.stream streamId fin payload)] { s with dir := s.dir.receive chunks fin }
  | reset (s : RecvSide) (streamId : VarInt) (errorCode : ErrorCode) (ht : s.dir.terminal = false) :
    SideStep s [.took (.resetStream streamId errorCode)]
      { s with
        dir :=
          { s.dir with
            inbound :=
              { s.dir.inbound with
                chunks := [], resetError := some errorCode.intoInner, finReceived := true }
            terminal := true } }

def RecvSide.machine : Machine RecvSide InEvent where
  init s := s = ⟨.new, .waiting, 0⟩
  step := SideStep

/-- How the marks of a direction, its content and its history agree. -/
structure RecvSide.Inv (s : RecvSide) (w : List InEvent) : Prop where
  gone : s.dir.discarded = true → s.holder = .gone
  remainder : s.dir.handle.readBuf ≠ none → s.mode = 2
  fin : s.dir.inbound.finReceived = s.dir.terminal
  terminal : s.dir.terminal = true ↔ ∃ f ∈ tooks w, f.ends = true
  reset_terminal : s.dir.inbound.resetError ≠ none → s.dir.terminal = true
  fin_took : s.dir.terminal = true → s.dir.inbound.resetError = none →
    ∃ streamId payload, .stream streamId true payload ∈ tooks w
  handed_le : handedBytes w <+: frameBytes (tooks w)
  content_le : s.holder ≠ .gone → handedBytes w ++ s.dir.content <+: frameBytes (tooks w)
  content_eq : s.holder ≠ .gone → s.dir.inbound.resetError = none →
    handedBytes w ++ s.dir.content = frameBytes (tooks w)
  eof : s.dir.handle.eof = true → .ended ∈ w
  ended : .ended ∈ w → s.dir.terminal = true ∧ s.dir.inbound.resetError = none ∧
    handedBytes w = frameBytes (tooks w)

namespace RecvSide

variable {s s' : RecvSide} {w : List InEvent}

theorem new_inv : Inv ⟨.new, .waiting, 0⟩ [] := by
  refine ⟨?_, ?_, rfl, ?_, ?_, ?_, ?_, ?_, ?_, ?_, ?_⟩ <;>
    simp [RecvDir.new, tooks, handedBytes, RecvDir.content, frameBytes]

theorem Inv.drop (h : s.Inv w) :
    Inv { s with dir := { s.dir with handle := { s.dir.handle with readBuf := none } }, holder := .gone } w :=
  { h with
    gone := fun _ => rfl
    remainder := fun hn => absurd rfl hn
    content_le := fun hn => absurd rfl hn
    content_eq := fun hn => absurd rfl hn }

theorem Inv.discard (h : s.Inv w) (hg : s.holder = .gone) :
    Inv { s with dir := { s.dir with inbound := { s.dir.inbound with chunks := [] }, discarded := true } } w :=
  { h with
    gone := fun _ => hg
    content_le := fun hn => absurd hg hn
    content_eq := fun hn => absurd hg hn }

theorem Inv.free (h : s.Inv w) (hg : s.holder = .gone) :
    Inv { s with dir := { s.dir with inbound := { s.dir.inbound with chunks := [] } } } w :=
  { h with
    content_le := fun hn => absurd hg hn
    content_eq := fun hn => absurd hg hn }

/-- A read moves bytes from the content to the application, and it reports the end only when the
direction was ended and is empty. -/
theorem Inv.read (h : s.Inv w) {r : Inbox.ReadOutcome} {d' : RecvDir} (hh : s.holder = .held)
    (hr : s.dir.Reads r d') (mode : Nat) (hm : d'.handle.readBuf ≠ none → mode = 2) :
    Inv { s with dir := d', mode := mode } (w ++ readIn r) := by
  have hheld : s.holder ≠ .gone := by simp [hh]
  have hmove : handedBytes (w ++ readIn r) ++ d'.content = handedBytes w ++ s.dir.content := by
    rw [handedBytes_append, handedBytes_readIn, List.append_assoc, hr.content]
  have htook : tooks (w ++ readIn r) = tooks w := by
    rw [tooks_append, tooks_readIn, List.append_nil]
  have hcle : handedBytes (w ++ readIn r) ++ d'.content <+: frameBytes (tooks (w ++ readIn r)) := by
    rw [hmove, htook]
    exact h.content_le hheld
  have hhle : handedBytes (w ++ readIn r) <+: frameBytes (tooks (w ++ readIn r)) :=
    (List.prefix_append _ _).trans hcle
  have hfull : handedBytes w = frameBytes (tooks w) →
      handedBytes (w ++ readIn r) = frameBytes (tooks (w ++ readIn r)) := by
    intro he
    apply hhle.eq_of_length_le
    rw [htook, ← he, handedBytes_append, List.length_append]
    exact Nat.le_add_right _ _
  have hended : InEvent.ended ∈ w ++ readIn r → s.dir.terminal = true ∧ s.dir.inbound.resetError = none ∧
      handedBytes (w ++ readIn r) = frameBytes (tooks (w ++ readIn r)) := by
    have hold : InEvent.ended ∈ w → s.dir.terminal = true ∧ s.dir.inbound.resetError = none ∧
        handedBytes (w ++ readIn r) = frameBytes (tooks (w ++ readIn r)) := by
      intro hm
      obtain ⟨ht, hn, he⟩ := h.ended hm
      exact ⟨ht, hn, hfull he⟩
    intro hm
    rcases List.mem_append.mp hm with hm | hm
    · exact hold hm
    · rcases hr.ended (ended_mem_readIn r hm) with heof | ⟨hempty, hn, hf⟩
      · exact hold (h.eof heof)
      · rw [h.fin, Bool.or_self] at hf
        have he := h.content_eq hheld hn
        rw [hempty, List.append_nil] at he
        exact ⟨hf, hn, hfull he⟩
  refine ⟨?_, hm, ?_, ?_, ?_, ?_, hhle, fun _ => hcle, ?_, ?_, ?_⟩
  · intro hd
    exact h.gone (hr.discarded ▸ hd)
  · change d'.inbound.finReceived = d'.terminal
    rw [hr.terminal]
    rcases hr.fin with hf | ⟨hf, ho⟩
    · exact hf.trans h.fin
    · rw [h.fin, Bool.or_self] at ho
      rw [hf, ho]
  · rw [htook]
    exact hr.terminal ▸ h.terminal
  · intro hn
    exact hr.terminal ▸ h.reset_terminal (hr.reset ▸ hn)
  · intro ht hn
    rw [htook]
    exact h.fin_took (hr.terminal ▸ ht) (hr.reset ▸ hn)
  · intro _ hn
    rw [hmove, htook]
    exact h.content_eq hheld (hr.reset ▸ hn)
  · intro he
    rcases hr.eof with heq | ⟨-, rfl⟩
    · exact List.mem_append_left _ (h.eof (heq ▸ he))
    · exact List.mem_append_right _ List.mem_cons_self
  · intro hm
    obtain ⟨ht, hn, he⟩ := hended hm
    exact ⟨hr.terminal ▸ ht, hr.reset ▸ hn, he⟩

/-- No frame that ends the direction was taken before one that finds it open. -/
theorem Inv.open_marks (h : s.Inv w) (ht : s.dir.terminal = false) :
    (∀ f ∈ tooks w, f.ends = false) ∧ s.dir.inbound.resetError = none ∧ .ended ∉ w := by
  refine ⟨?_, ?_, ?_⟩
  · intro f hf
    by_contra he
    rw [h.terminal.mpr ⟨f, hf, Bool.eq_true_of_not_eq_false he⟩] at ht
    cases ht
  · by_contra hn
    rw [h.reset_terminal hn] at ht
    cases ht
  · intro hm
    rw [(h.ended hm).1] at ht
    cases ht

theorem Inv.stream (h : s.Inv w) (streamId : VarInt) (fin : Bool) (payload : Bytes) (chunks : List InboundChunk)
    (ht : s.dir.terminal = false)
    (hc : s.dir.discarded = true ∧ chunks = s.dir.inbound.chunks ∨
      s.dir.discarded = false ∧ Inbox.bytesOf chunks = Inbox.bytesOf s.dir.inbound.chunks ++ payload) :
    Inv { s with dir := s.dir.receive chunks fin } (w ++ [.took (.stream streamId fin payload)]) := by
  obtain ⟨hopen, hnone, hnot⟩ := h.open_marks ht
  have htook : tooks (w ++ [.took (.stream streamId fin payload)]) =
      tooks w ++ [.stream streamId fin payload] := by
    rw [tooks_append, tooks_took]
  have hhanded : handedBytes (w ++ [.took (.stream streamId fin payload)]) = handedBytes w := by
    rw [handedBytes_append, handedBytes_took, List.append_nil]
  have hbytes : frameBytes (tooks (w ++ [.took (.stream streamId fin payload)])) =
      frameBytes (tooks w) ++ payload := by
    rw [htook, frameBytes_append, frameBytes_singleton]
    rfl
  have hcontent : s.holder ≠ .gone → (s.dir.receive chunks fin).content = s.dir.content ++ payload := by
    intro hg
    rcases hc with ⟨hd, -⟩ | ⟨-, hb⟩
    · exact absurd (h.gone hd) hg
    · change _ ++ Inbox.bytesOf chunks = (_ ++ Inbox.bytesOf s.dir.inbound.chunks) ++ payload
      rw [hb, ← List.append_assoc]
      rfl
  have hcontent_eq : s.holder ≠ .gone → handedBytes (w ++ [.took (.stream streamId fin payload)]) ++
      (s.dir.receive chunks fin).content = frameBytes (tooks (w ++ [.took (.stream streamId fin payload)])) := by
    intro hg
    rw [hhanded, hcontent hg, hbytes, ← List.append_assoc, h.content_eq hg hnone]
  refine ⟨h.gone, h.remainder, ?_, ?_, ?_, ?_, ?_, ?_, ?_, ?_, ?_⟩
  · change (s.dir.inbound.finReceived || fin) = (s.dir.terminal || fin)
    rw [h.fin]
  · change (s.dir.terminal || fin) = true ↔ _
    rw [ht, Bool.false_or, htook]
    constructor
    · intro hfin
      exact ⟨_, List.mem_append_right _ List.mem_cons_self, hfin⟩
    · rintro ⟨f, hf, he⟩
      rcases List.mem_append.mp hf with hf | hf
      · rw [hopen f hf] at he
        cases he
      · rw [List.mem_singleton.mp hf] at he
        exact he
  · exact fun hn => absurd hnone hn
  · intro hterm _
    have hfin : fin = true := by
      change (s.dir.terminal || fin) = true at hterm
      rwa [ht, Bool.false_or] at hterm
    subst hfin
    exact ⟨streamId, payload, htook ▸ List.mem_append_right _ List.mem_cons_self⟩
  · rw [hhanded, hbytes]
    exact h.handed_le.trans (List.prefix_append _ _)
  · exact fun hg => (hcontent_eq hg) ▸ List.prefix_refl _
  · exact fun hg _ => hcontent_eq hg
  · exact fun he => List.mem_append_left _ (h.eof he)
  · intro hm
    rcases List.mem_append.mp hm with hm | hm
    · exact absurd hm hnot
    · cases List.mem_singleton.mp hm

theorem Inv.reset (h : s.Inv w) (streamId : VarInt) (errorCode : ErrorCode) (ht : s.dir.terminal = false) :
    Inv { s with
        dir :=
          { s.dir with
            inbound :=
              { s.dir.inbound with
                chunks := [], resetError := some errorCode.intoInner, finReceived := true }
            terminal := true } }
      (w ++ [.took (.resetStream streamId errorCode)]) := by
  obtain ⟨-, hnone, hnot⟩ := h.open_marks ht
  have htook : tooks (w ++ [.took (.resetStream streamId errorCode)]) =
      tooks w ++ [.resetStream streamId errorCode] := by
    rw [tooks_append, tooks_took]
  have hhanded : handedBytes (w ++ [.took (.resetStream streamId errorCode)]) = handedBytes w := by
    rw [handedBytes_append, handedBytes_took, List.append_nil]
  have hbytes : frameBytes (tooks (w ++ [.took (.resetStream streamId errorCode)])) = frameBytes (tooks w) := by
    rw [htook, frameBytes_append, frameBytes_singleton]
    exact List.append_nil _
  refine ⟨h.gone, h.remainder, rfl, ?_, fun _ => rfl, ?_, ?_, ?_, ?_, ?_, ?_⟩
  · exact ⟨fun _ => ⟨_, htook ▸ List.mem_append_right _ List.mem_cons_self, rfl⟩, fun _ => rfl⟩
  · intro _ hn
    cases hn
  · rw [hhanded, hbytes]
    exact h.handed_le
  · intro hg
    rw [hhanded, hbytes]
    -- what stays is the remainder of a partial read, the front of the content before
    refine List.IsPrefix.trans ?_ (h.content_le hg)
    simp [RecvDir.content]
  · intro _ hn
    cases hn
  · exact fun he => List.mem_append_left _ (h.eof he)
  · intro hm
    rcases List.mem_append.mp hm with hm | hm
    · exact absurd hm hnot
    · cases List.mem_singleton.mp hm

theorem step_inv {evs : List InEvent} (h : s.Inv w) (hs : SideStep s evs s') : s'.Inv (w ++ evs) := by
  cases hs with
  | skip => rwa [List.append_nil]
  | closed closed => rw [List.append_nil]; exact { h with }
  | hold hw =>
    rw [List.append_nil]
    exact
      { h with
        gone := fun hd => by
          have hg := h.gone hd
          rw [hw] at hg
          cases hg
        content_le := fun _ => h.content_le (by simp [hw])
        content_eq := fun _ => h.content_eq (by simp [hw]) }
  | drop => rw [List.append_nil]; exact h.drop
  | discard hg => rw [List.append_nil]; exact h.discard hg
  | free hg => rw [List.append_nil]; exact h.free hg
  | readWhole r d' hh hm hhandle hr =>
    have hnone : s.dir.handle.readBuf = none := by
      by_contra hn
      exact hm (h.remainder hn)
    exact h.read hh (hr hnone) 1 fun hn => absurd (hhandle ▸ hnone) hn
  | pollRead r d' hh hr => exact h.read hh hr 2 fun _ => rfl
  | stream streamId fin payload chunks ht hc => exact h.stream streamId fin payload chunks ht hc
  | reset streamId errorCode ht => exact h.reset streamId errorCode ht

theorem reach_inv (h : machine.Reach s w) : s.Inv w :=
  h.invariant Inv (fun s (hi : s = _) => hi ▸ new_inv) fun _ _ _ _ _ hv hs => step_inv hv hs

end RecvSide

namespace Receiver

def side (v : Receiver) (id : Nat) : RecvSide := ⟨v.inbox.dir id, v.holder id, v.mode id⟩

theorem silent_inEvents (log : List Event) (h : ∀ e ∈ log, e.Silent) (id : Nat) :
    log.filterMap (inEvent id) = [] := by
  rw [List.filterMap_eq_nil_iff]
  intro e he
  have hq := h e he
  cases e with
  | accepted f => cases f <;> first | rfl | exact hq.elim
  | _ => first | rfl | exact hq.elim

theorem readEvents_self (id : Nat) (r : Inbox.ReadOutcome) :
    (Shared.readEvents id r).filterMap (inEvent id) = readIn r := by
  cases r <;> simp [Shared.readEvents, inEvent, readIn]

theorem readEvents_other (id j : Nat) (h : id ≠ j) (r : Inbox.ReadOutcome) :
    (Shared.readEvents j r).filterMap (inEvent id) = [] := by
  cases r <;> simp [Shared.readEvents, inEvent, Ne.symm h]

variable {l : Limits} {isClient : Bool} {v v' : Receiver} {log : List Event}

/-- A new stream was untouched before, and it is untouched but for its holder after. -/
theorem side_create (hv : v.WF l) (ids : Ids) (id j : Nat) (holder : Holder) (hn : ¬ v.ids.Opened j) :
    (v.create ids j holder).side id =
      if id = j then { v.side id with holder := holder } else v.side id := by
  have hdir := v.inbox.create_dir v.limits j
  by_cases hj : id = j
  · subst hj
    obtain ⟨hd, -, hm⟩ := hv.fresh id hn
    rw [if_pos rfl]
    simp only [side, create, hdir, Function.update_self, hd, hm]
    rfl
  · rw [if_neg hj]
    simp only [side, create, hdir, Function.update_of_ne hj]

/-- The simulation of one direction: each step of the receiver is a step of the direction. -/
theorem side_step (hv : v.WF l) (h : RecvStep v log v') (id : Nat) :
    SideStep (v.side id) (log.filterMap (inEvent id)) (v'.side id) := by
  have hskip : ∀ v' : Receiver, v'.side id = v.side id → SideStep (v.side id) [] (v'.side id) := by
    intro v' he
    rw [he]
    exact .skip _
  have hother : ∀ (b : Inbox) (j : Nat) (d : RecvDir), b.dir = Function.update v.inbox.dir j d → id ≠ j →
      b.dir id = v.inbox.dir id := by
    intro b j d hb hj
    rw [hb, Function.update_of_ne hj]
  have hself : ∀ (b : Inbox) (d : RecvDir), b.dir = Function.update v.inbox.dir id d → b.dir id = d := by
    intro b d hb
    rw [hb, Function.update_self]
  cases h with
  | quiet _ done hlog => rw [silent_inEvents log hlog]; exact .skip _
  | reject error => exact .skip _
  | shut _ done hlog =>
    rw [silent_inEvents log hlog]
    obtain ⟨closed, hc⟩ := v.inbox.shut_dir v.streams id
    have hs := SideStep.closed (v.side id) closed
    simp only [side, hc] at hs ⊢
    exact hs
  | openLocal hid =>
    have hn := Ids.not_opened_nextLocal hv.ids
    rw [side_create hv _ id _ _ hn]
    by_cases hj : id = v.ids.nextLocal
    · rw [if_pos hj]
      exact .hold (v.side id) (hv.fresh id (hj ▸ hn)).2.1
    · rw [if_neg hj]
      exact .skip _
  | openRemote _ done hid hlog =>
    have hn := Ids.not_opened_nextRemote hv.ids
    have hl : log.filterMap (inEvent id) = [] := by
      rcases hlog with ⟨rfl, -⟩ | ⟨⟨error, rfl⟩, -⟩ <;> rfl
    rw [hl]
    apply hskip
    refine (side_create hv v.ids.takeRemote id _ _ hn).trans ?_
    by_cases hj : id = v.ids.nextRemote
    · rw [if_pos hj, ← (hv.fresh id (hj ▸ hn)).2.1]
      rfl
    · rw [if_neg hj]
  | accept j hw hid =>
    by_cases hj : id = j
    · subst hj
      have hs := SideStep.hold (v.side id) hw
      simp only [side, Function.update_self] at hs ⊢
      exact hs
    · apply hskip
      simp only [side, Function.update_of_ne hj]
  | drop j hh =>
    have hdir := v.inbox.dropRemainder_dir j
    by_cases hj : id = j
    · subst hj
      have hs := SideStep.drop (v.side id) hh
      simp only [side, hself _ _ hdir, Function.update_self] at hs ⊢
      exact hs
    · apply hskip
      simp only [side, hother _ _ _ hdir hj, Function.update_of_ne hj]
  | discard j hh =>
    have hdir := v.inbox.discardInbound_dir j
    by_cases hj : id = j
    · subst hj
      have hs := SideStep.discard (v.side id) hh
      simp only [side, hself _ _ hdir] at hs ⊢
      exact hs
    · apply hskip
      simp only [side, hother _ _ _ hdir hj]
  | free j hh =>
    have hdir := v.inbox.clearChunks_dir j
    by_cases hj : id = j
    · subst hj
      have hs := SideStep.free (v.side id) hh
      simp only [side, hself _ _ hdir] at hs ⊢
      exact hs
    · apply hskip
      simp only [side, hother _ _ _ hdir hj]
  | readWhole j hh hm =>
    obtain ⟨d, hdir, -, -, hhandle, hr⟩ := v.inbox.readWhole_reads j
    by_cases hj : id = j
    · subst hj
      have hs := SideStep.readWhole (v.side id) _ d hh hm hhandle hr
      rw [readEvents_self]
      simp only [side, hself _ _ hdir, Function.update_self] at hs ⊢
      exact hs
    · rw [readEvents_other id j hj]
      apply hskip
      simp only [side, hother _ _ _ hdir hj, Function.update_of_ne hj]
  | pollRead j room hh =>
    obtain ⟨d, hdir, hr⟩ := v.inbox.pollRead_reads j room
    by_cases hj : id = j
    · subst hj
      have hs := SideStep.pollRead (v.side id) _ d hh hr
      rw [readEvents_self]
      simp only [side, hself _ _ hdir, Function.update_self] at hs ⊢
      exact hs
    · rw [readEvents_other id j hj]
      apply hskip
      simp only [side, hother _ _ _ hdir hj, Function.update_of_ne hj]
  | stream streamId fin payload inbox hd hm ht hacc =>
    obtain ⟨chunks, hdir, hc⟩ := v.inbox.acceptData_dir _ _ _ _ _ hacc
    by_cases hj : id = streamId.intoInner
    · subst hj
      have hs := SideStep.stream (v.side streamId.intoInner) streamId fin payload chunks ht hc
      have he : [Event.accepted (.stream streamId fin payload)].filterMap (inEvent streamId.intoInner) =
          [.took (.stream streamId fin payload)] := by
        simp [inEvent, Frame.sendsOn]
      rw [he]
      simp only [side, hself _ _ hdir] at hs ⊢
      exact hs
    · have he : [Event.accepted (.stream streamId fin payload)].filterMap (inEvent id) = [] := by
        simp [inEvent, Frame.sendsOn, Ne.symm hj]
      rw [he]
      apply hskip
      simp only [side, hother _ _ _ hdir hj]
  | refuse j fin payload inbox error hm hacc =>
    apply hskip
    simp only [side, v.inbox.acceptData_error_dir _ _ _ _ _ _ hacc]
  | reset streamId errorCode hd hm ht =>
    have hdir := (v.inbox.markReset streamId.intoInner errorCode.intoInner).markRecvTerminal_dir streamId.intoInner
    rw [Inbox.markReset_dir, Function.update_idem, Function.update_self] at hdir
    by_cases hj : id = streamId.intoInner
    · subst hj
      have hs := SideStep.reset (v.side streamId.intoInner) streamId errorCode ht
      have he : [Event.accepted (.resetStream streamId errorCode)].filterMap (inEvent streamId.intoInner) =
          [.took (.resetStream streamId errorCode)] := by
        simp [inEvent, Frame.sendsOn]
      rw [he]
      simp only [side, hself _ _ hdir] at hs ⊢
      exact hs
    · have he : [Event.accepted (.resetStream streamId errorCode)].filterMap (inEvent id) = [] := by
        simp [inEvent, Frame.sendsOn, Ne.symm hj]
      rw [he]
      apply hskip
      simp only [side, hother _ _ _ hdir hj]
  | grantConn maximum hu => exact .skip _
  | grantStream j maximum hm ht hd hu =>
    apply hskip
    simp only [side, v.inbox.grantStream_dir j]
  | retire j ht => exact .skip _

theorem reach_side (h : (machine l isClient).Reach v log) (id : Nat) :
    RecvSide.machine.Reach (v.side id) (log.filterMap (inEvent id)) := by
  refine h.simulate (fun v => v.side id) (inEvent id) ?_ ?_
  · intro v (hi : v = _)
    subst hi
    rfl
  · intro v _ log v' hr _ hs
    exact .single (side_step (reach_wf hr) hs id)

/-- The frames of stream `id` that the log shows as accepted. -/
theorem tooks_inEvents (log : List Event) (id : Nat) :
    tooks (log.filterMap (inEvent id)) = (accepted log).filter (Frame.sendsOn id) := by
  induction log with
  | nil => rfl
  | cons e log ih =>
    cases e with
    | accepted f =>
      have he : accepted (.accepted f :: log) = f :: accepted log := rfl
      rw [he]
      cases hf : f.sendsOn id with
      | true => simpa [tooks, inEvent, hf] using ih
      | false => simpa [tooks, inEvent, hf] using ih
    | handed j data =>
      have he : accepted (.handed j data :: log) = accepted log := rfl
      rw [he, ← ih]
      by_cases hj : j = id <;> simp [tooks, inEvent, hj]
    | ended j =>
      have he : accepted (.ended j :: log) = accepted log := rfl
      rw [he, ← ih]
      by_cases hj : j = id <;> simp [tooks, inEvent, hj]
    | _ => exact ih

end Receiver
end Muxtls
