import Muxtls.Schedule.Drain

namespace Muxtls
namespace Sender

variable {l : Limits} {isClient : Bool} {v v' : Sender} {log evs : List Event}

/-- No SETTINGS among some frames. -/
def Unsettled (frames : List Frame) : Prop := ∀ f ∈ frames, f.isSettings = false

theorem Unsettled.snoc {frames : List Frame} (h : Unsettled frames) (f : Frame) (hf : f.isSettings = false) :
    Unsettled (frames ++ [f]) := by
  intro g hg
  rcases List.mem_append.mp hg with hg | hg
  · exact h g hg
  · rw [List.mem_singleton.mp hg]
    exact hf

/-- Where the SETTINGS frame of a sender is: at the front of its control queue, thrown away by a shutdown
before anything was emitted, or emitted as the first frame. -/
inductive Settled (l : Limits) (v : Sender) (log : List Event) : Prop
  | queued (control : List Frame) (hnone : emitted log = []) (hcut : v.cut = false)
    (hc : v.queues.control = settingsFrame l :: control) (hrest : Unsettled control)
  | shut (hnone : emitted log = []) (hcut : v.cut = true) (hc : v.queues.control = [])
    (hframe : v.queues.closeFrame = none)
  | done (rest : List Frame) (hfirst : emitted log = settingsFrame l :: rest) (hrest : Unsettled rest)
    (hc : Unsettled v.queues.control)

/-- A step that emits nothing and leaves the control queue and the close alone. -/
theorem Settled.keep (h : v.Settled l log) (hnone : emitted evs = [])
    (hcontrol : v'.queues.control = v.queues.control) (hcut : v'.cut = v.cut)
    (hframe : v.cut = true → v'.queues.closeFrame = v.queues.closeFrame) : v'.Settled l (log ++ evs) := by
  have he : emitted (log ++ evs) = emitted log := by rw [emitted_append, hnone, List.append_nil]
  cases h with
  | queued control hn hc hcon hrest => exact .queued control (he.trans hn) (hcut.trans hc) (hcontrol.trans hcon) hrest
  | shut hn hc hcon hf => exact .shut (he.trans hn) (hcut.trans hc) (hcontrol.trans hcon) ((hframe hc).trans hf)
  | done rest hfirst hrest hcon => exact .done rest (he.trans hfirst) hrest (hcontrol ▸ hcon)

/-- A frame that is not SETTINGS joins the control queue. -/
theorem Settled.push (h : v.Settled l log) (hnone : emitted evs = []) (f : Frame) (hf : f.isSettings = false)
    (hopen : v.queues.closing = false) (hcontrol : v'.queues.control = v.queues.control ++ [f])
    (hcut : v'.cut = v.cut) : v'.Settled l (log ++ evs) := by
  have he : emitted (log ++ evs) = emitted log := by rw [emitted_append, hnone, List.append_nil]
  cases h with
  | queued control hn hc hcon hrest =>
    refine .queued (control ++ [f]) (he.trans hn) (hcut.trans hc) ?_ (hrest.snoc f hf)
    rw [hcontrol, hcon, List.cons_append]
  | shut hn hc hcon hframe =>
    rw [cut_of_open v hopen] at hc
    cases hc
  | done rest hfirst hrest hcon =>
    refine .done rest (he.trans hfirst) hrest ?_
    rw [hcontrol]
    exact hcon.snoc f hf

/-- A frame that is not SETTINGS is emitted, which needs the queue behind SETTINGS. -/
theorem Settled.emit (h : v.Settled l log) (f : Frame) (hf : f.isSettings = false)
    (hafter : ∀ control, v.cut = false → v.queues.control ≠ settingsFrame l :: control)
    (hshut : v.cut = true → v.queues.closeFrame ≠ none)
    (hcontrol : v'.queues.control = v.queues.control) : v'.Settled l (log ++ [.emitted f]) := by
  cases h with
  | queued control hn hc hcon => exact absurd hcon (hafter control hc)
  | shut hn hc hcon hframe => exact absurd hframe (hshut hc)
  | done rest hfirst hrest hcon =>
    refine .done (rest ++ [f]) ?_ (hrest.snoc f hf) (hcontrol ▸ hcon)
    rw [emitted_append, hfirst]
    rfl

/-- The queues are emptied: SETTINGS must be gone, or no frame is left to emit. -/
theorem Settled.clear (h : v.Settled l log) (hnone : emitted evs = []) (hcontrol : v'.queues.control = [])
    (hok : v'.queues.closeFrame = none ∧ v'.cut = true ∨ Unsettled v.queues.control ∧ v.cut = false) :
    v'.Settled l (log ++ evs) := by
  have he : emitted (log ++ evs) = emitted log := by rw [emitted_append, hnone, List.append_nil]
  have hempty : Unsettled v'.queues.control := by
    rw [hcontrol]
    intro f hf
    cases hf
  cases h with
  | queued control hn hc hcon hrest =>
    rcases hok with ⟨hframe, hcut⟩ | ⟨hu, -⟩
    · exact .shut (he.trans hn) hcut hcontrol hframe
    · have hs := hu (settingsFrame l) (hcon ▸ List.mem_cons_self)
      cases hs
  | shut hn hc hcon hframe =>
    rcases hok with ⟨hframe', hcut⟩ | ⟨-, hcut⟩
    · exact .shut (he.trans hn) hcut hcontrol hframe'
    · rw [hc] at hcut
      cases hcut
  | done rest hfirst hrest hcon => exact .done rest (he.trans hfirst) hrest hempty

theorem settled_step (hv : v.WF l) (h : v.Settled l log) (hs : SendStep l v evs v')
    (hguard : ∀ code reason fitted, .closing code reason fitted ∈ evs → code = 0 ∨ Unsettled v.queues.control) :
    v'.Settled l (log ++ evs) := by
  cases hs with
  | quiet _ hq => exact h.keep (quiet_emitted _ hq) rfl rfl fun _ => rfl
  | halt _ hq => exact h.keep (quiet_emitted _ hq) rfl rfl fun _ => rfl
  | openLocal hid hclosed hclosing => exact h.push rfl _ rfl hclosing rfl rfl
  | openRemote _ hid hlog =>
    rcases hlog with rfl | ⟨error, rfl⟩ <;> exact h.keep rfl rfl rfl fun _ => rfl
  | reset id errorCode _ hid hdisp hres hclosing hlog =>
    rcases hlog with rfl | rfl <;>
      exact h.push rfl (.resetStream (.expect id) errorCode) rfl hclosing rfl rfl
  | resetAgain id _ hor hlog => rcases hlog with rfl | rfl <;> exact h.keep rfl rfl rfl fun _ => rfl
  | ping hclosing _ => exact h.push rfl .ping rfl hclosing rfl rfl
  | stop id hid hclosing => exact h.push rfl (.stopSending (.expect id)) rfl hclosing rfl rfl
  | close code reason fitted hcode hclosed hfit =>
    have hclosing : v.queues.closing = false := hv.not_closing hclosed
    have hcut := cut_of_open v hclosing
    rcases hguard _ _ _ List.mem_cons_self with hz | hu
    · -- a graceful close keeps the queue
      rw [hz]
      refine h.keep rfl rfl ?_ ?_
      · rw [hcut]
        rfl
      · intro hc
        rw [hcut] at hc
        cases hc
    · cases hz : code.intoInner == 0 with
      | true =>
        refine h.keep rfl rfl ?_ ?_
        · rw [hcut]
          rfl
        · intro hc
          rw [hcut] at hc
          cases hc
      | false => exact h.clear rfl rfl (.inr ⟨hu, hcut⟩)
  | shutdown _ hq => exact h.clear (quiet_emitted _ hq) rfl (.inl ⟨rfl, rfl⟩)
  | pop f control hcut hc =>
    cases h with
    | queued control' hn hcut' hcon hrest =>
      obtain ⟨rfl, rfl⟩ := List.cons.inj (hc.symm.trans hcon)
      refine .done [] ?_ (by simp [Unsettled]) hrest
      rw [emitted_append, hn]
      rfl
    | shut hn hcut' =>
      rw [hcut'] at hcut
      cases hcut
    | done rest hfirst hrest hcon =>
      rw [hc] at hcon
      have hf := hcon f List.mem_cons_self
      refine .done (rest ++ [f]) ?_ (hrest.snoc f hf) fun g hg => hcon g (List.mem_cons_of_mem _ hg)
      rw [emitted_append, hfirst]
      rfl
  | grant f hcut hc hf =>
    have hs : f.isSettings = false := by cases f <;> first | rfl | exact hf.elim
    refine h.emit f hs ?_ ?_ rfl
    · intro control _ hcon
      rw [hc] at hcon
      cases hcon
    · intro hcut'
      rw [hcut] at hcut'
      cases hcut'
  | data id chunk rest skipped later hcut hturn hready hskip hchunk hel =>
    refine h.emit _ rfl ?_ ?_ rfl
    · -- SETTINGS at the front is urgent, so it is not the turn of the data
      intro control _ hcon
      rcases hturn with hc | ⟨-, hu⟩
      · rw [hc] at hcon
        cases hcon
      · rw [WriterQueues.urgent, hcon] at hu
        cases hu
    · intro hcut'
      rw [hcut] at hcut'
      cases hcut'
  | closeFrame f hclosing hdrain hf =>
    obtain ⟨hframe, code, reason, rfl⟩ := closeFrame_inv hv f hf
    refine h.emit _ rfl ?_ (fun _ => hframe) rfl
    intro control hcut hcon
    rcases hdrain with hd | ⟨hc, -⟩
    · rw [hcut] at hd
      cases hd
    · rw [hc] at hcon
      cases hcon
  | _ => exact h.keep rfl rfl rfl fun _ => rfl

end Sender

/-- The first frame is the SETTINGS of these limits, and no later one is SETTINGS. -/
def SettingsFirst (l : Limits) (frames : List Frame) : Prop :=
  frames = [] ∨ ∃ rest, frames = settingsFrame l :: rest ∧ ∀ f ∈ rest, f.isSettings = false

namespace Endpoint

/-- An error close starts only when SETTINGS has left the control queue, or on a closed connection. -/
def keepsSettings (e : Endpoint) : Act → Bool
  | .work task =>
    match e.todo task with
    | .failClose _ :: _ => e.shared.closed || e.shared.queues.control.all fun f => !f.isSettings
    | _ => true
  | _ => true

/-- The runs in which no error close throws SETTINGS away. -/
def settledMachine (limits : Limits) (isClient : Bool) : Machine Endpoint Event :=
  .ofStep (fun e => connect limits isClient = .ok e) (Machine.guardStep keepsSettings step)

/-- In every run in which each error close of an open connection finds SETTINGS gone from the control
queue, the first frame is SETTINGS with the endpoint's own limits, and no later one is. -/
theorem settings_first (l : Limits) (isClient : Bool) (e : Endpoint) (log : List Event)
    (h : (settledMachine l isClient).Reach e log) : SettingsFirst l (emitted log) := by
  have hset : e.shared.sender.Settled l log := by
    refine h.invariant (fun e log => e.shared.sender.Settled l log) ?_ ?_
    · intro e he
      rw [(connect_ok he).2]
      exact .queued [] rfl rfl rfl (by simp [Sender.Unsettled])
    · rintro e tr evs e' hr hset ⟨a, ha⟩
      obtain ⟨hok, ha⟩ := Machine.guardStep_eq_some.mp ha
      have hr := hr.of_guard
      refine Sender.settled_step (Sender.reach_wf (reach_sender hr)) hset (reach_sendStep hr a ha) ?_
      intro code reason fitted hm
      obtain ⟨hclosed, -, ⟨hcode, -⟩ | ⟨-, task, ops, rfl, ht⟩⟩ := step_logs a ha _ hm
      · exact .inl hcode
      · right
        simp only [keepsSettings, ht, hclosed, Bool.false_or, List.all_eq_true, Bool.not_eq_true'] at hok
        exact hok
  cases hset with
  | queued control hn => exact .inl hn
  | shut hn => exact .inl hn
  | done rest hfirst hrest => exact .inr ⟨rest, hfirst, hrest⟩

/-- SETTINGS leaves the queue, then the peer's first bytes are no frame and the error close follows. -/
theorem settings_first_closed :
    ∃ e log, (settledMachine smallLimits true).Reach e log ∧ (emitted log).map Frame.isSettings = [true, false] ∧
      SettingsFirst smallLimits (emitted log) := by
  have hrun : (Machine.runList (Machine.guardStep keepsSettings step) { shared := .new smallLimits true }
      [.nextFrame [], .send, .receive [255], .work .reader, .nextFrame []]).map
        (fun r => (emitted r.2).map Frame.isSettings) = some [true, false] := by decide
  have h0 : connect smallLimits true = .ok { shared := .new smallLimits true } := rfl
  obtain ⟨e, log, hr, hlog⟩ := Machine.runList_reach (connect smallLimits true = .ok ·) h0 _ _ hrun
  exact ⟨e, log, hr, hlog, settings_first smallLimits true e log hr⟩

/-- The peer's first bytes are no frame: the error close throws SETTINGS away and goes out first. -/
theorem close_before_settings :
    ∃ e log, (machine smallLimits true).Reach e log ∧
      emitted log = [.connectionClose ⟨.expect 1⟩ "protocol/runtim"] ∧
      ¬ SettingsFirst smallLimits (emitted log) := by
  have hrun : (Machine.runList step { shared := .new smallLimits true }
      [.receive [255], .work .reader, .nextFrame []]).map (fun r => emitted r.2) =
        some [.connectionClose ⟨.expect 1⟩ "protocol/runtim"] := by decide
  have h0 : connect smallLimits true = .ok { shared := .new smallLimits true } := rfl
  obtain ⟨e, log, hr, hlog⟩ := Machine.runList_reach (connect smallLimits true = .ok ·) h0 _ _ hrun
  refine ⟨e, log, hr, hlog, ?_⟩
  rw [show emitted log = _ from hlog]
  rintro (hn | ⟨rest, hfirst, -⟩)
  · cases hn
  · cases hfirst

end Endpoint
end Muxtls
