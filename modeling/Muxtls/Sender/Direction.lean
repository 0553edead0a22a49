import Muxtls.Sender.Basic

namespace Muxtls
namespace Frame

/-- A STREAM or RESET_STREAM frame of stream `id`. -/
def sendsOn (id : Nat) : Frame → Bool
  | stream streamId _ _ => streamId.intoInner == id
  | resetStream streamId _ => streamId.intoInner == id
  | _ => false

/-- A frame that ends its direction: STREAM with FIN, or RESET_STREAM. -/
def ends : Frame → Bool
  | stream _ fin _ => fin
  | resetStream _ _ => true
  | _ => false

def isReset (id : Nat) : Frame → Bool
  | resetStream streamId _ => streamId.intoInner == id
  | _ => false

/-- The stream bytes a frame carries. -/
def payload : Frame → Bytes
  | stream _ _ payload => payload
  | _ => []

end Frame

/-- What one send direction shows: a chunk accepted by `queue_stream_chunk`, or a frame emitted. -/
inductive DirEvent where
  | queued (payload : Bytes) (fin : Bool)
  | out (f : Frame)
deriving DecidableEq

def dirEvent (id : Nat) : Event → Option DirEvent
  | .queued j payload fin => if j = id then some (.queued payload fin) else none
  | .emitted f => if f.sendsOn id then some (.out f) else none
  | _ => none

/-- The frames a direction has emitted. -/
def outs (w : List DirEvent) : List Frame :=
  w.filterMap fun
    | .out f => some f
    | .queued _ _ => none

/-- The chunks a direction has accepted. -/
def queuedChunks (w : List DirEvent) : List (Bytes × Bool) :=
  w.filterMap fun
    | .queued payload fin => some (payload, fin)
    | .out _ => none

/-- The bytes of chunks in order. -/
def chunkBytes (chunks : List (Bytes × Bool)) : Bytes := chunks.flatMap Prod.fst

/-- The bytes of frames in order. -/
def frameBytes (frames : List Frame) : Bytes := frames.flatMap Frame.payload

/-- The send direction of one stream. `finishing` is a FIN in the queue whose `send_terminal` store
is still to come, `resets` counts its RESET_STREAM frames in the control queue, and `cut` says that
the queuedChunks were emptied. -/
structure SendDir where
  chunks : List (Bytes × Bool)
  finishing : Bool
  terminal : Bool
  dispatched : Bool
  resetQueued : Bool
  resets : Nat
  cut : Bool

/-- What a step of the sender can do to one direction. -/
inductive DirStep : SendDir → List DirEvent → SendDir → Prop
  | skip (d : SendDir) : DirStep d [] d
  | enqueue (d : SendDir) (payload : Bytes) (fin : Bool) (hfin : d.finishing = false)
    (hterm : d.terminal = false) (hcut : d.cut = false) :
    DirStep d [.queued payload fin] { d with chunks := d.chunks ++ [(payload, fin)], finishing := fin }
  | finish (d : SendDir) (h : d.finishing = true) :
    DirStep d [] { d with terminal := true, finishing := false }
  | reset (d : SendDir) (hdisp : d.dispatched = false) (hres : d.resetQueued = false)
    (hcut : d.cut = false) :
    DirStep d [] { d with chunks := [], terminal := true, resetQueued := true, resets := d.resets + 1 }
  | popReset (d : SendDir) (streamId : VarInt) (code : ErrorCode) (n : Nat) (hn : d.resets = n + 1) :
    DirStep d [.out (.resetStream streamId code)] { d with resets := n }
  | data (d : SendDir) (streamId : VarInt) (payload : Bytes) (fin : Bool) (rest : List (Bytes × Bool))
    (count : Nat) (h : d.chunks = (payload, fin) :: rest) :
    DirStep d [.out (.stream streamId (fin && (payload.drop count).isEmpty) (payload.take count))]
      { d with
        chunks := if (payload.drop count).isEmpty then rest else (payload.drop count, fin) :: rest
        dispatched := d.dispatched || (fin && (payload.drop count).isEmpty) }
  | cut (d : SendDir) : DirStep d [] { d with chunks := [], resets := 0, cut := true }

def SendDir.new : SendDir := ⟨[], false, false, false, false, 0, false⟩

def SendDir.machine : Machine SendDir DirEvent where
  init d := d = SendDir.new
  step := DirStep

/-- A word of frames that do not end the direction, with at most one that does, at the end. -/
def Word (fs : List Frame) : Prop :=
  ∃ body tail, fs = body ++ tail ∧ (∀ f ∈ body, f.ends = false) ∧ tail.length ≤ 1

/-- How the marks of a direction, its queue and its history agree. -/
structure SendDir.Inv (d : SendDir) (w : List DirEvent) : Prop where
  cut_empty : d.cut = true → d.chunks = []
  reset_empty : d.resetQueued = true → d.chunks = [] ∧ d.terminal = true
  disp_empty : d.dispatched = true → d.chunks = [] ∧ (d.terminal || d.finishing) = true
  exclusive : d.dispatched = true → d.resetQueued = false
  fin_last : ∀ x ∈ d.chunks.dropLast, x.2 = false
  fin_mark : ∀ x ∈ d.chunks, x.2 = true → (d.terminal || d.finishing) = true
  fin_queued : ∀ x ∈ d.chunks, x.2 = true → ∃ y ∈ queuedChunks w, y.2 = true
  resets_le : d.resets ≤ d.resetQueued.toNat
  count_le : (outs w).countP Frame.ends + d.resets ≤ (d.dispatched || d.resetQueued).toNat
  count_eq : d.cut = false ∨ d.dispatched = true →
    (outs w).countP Frame.ends + d.resets = (d.dispatched || d.resetQueued).toNat
  word : Word (outs w)
  bytes_le : frameBytes (outs w) <+: chunkBytes (queuedChunks w)
  bytes_eq : d.cut = false → d.resetQueued = false →
    chunkBytes (queuedChunks w) = frameBytes (outs w) ++ chunkBytes d.chunks
  bytes_done : d.dispatched = true →
    chunkBytes (queuedChunks w) = frameBytes (outs w) ∧ ∃ y ∈ queuedChunks w, y.2 = true

section Logs

variable (w : List DirEvent) (payload : Bytes) (fin : Bool) (f : Frame) (chunks chunks' : List (Bytes × Bool))
  (frames frames' : List Frame)

@[simp] theorem outs_queued : outs (w ++ [.queued payload fin]) = outs w := by simp [outs]

@[simp] theorem outs_out : outs (w ++ [.out f]) = outs w ++ [f] := by simp [outs]

@[simp] theorem queuedChunks_queued :
    queuedChunks (w ++ [.queued payload fin]) = queuedChunks w ++ [(payload, fin)] := by
  simp [queuedChunks]

@[simp] theorem queuedChunks_out : queuedChunks (w ++ [.out f]) = queuedChunks w := by
  simp [queuedChunks]

@[simp] theorem chunkBytes_nil : chunkBytes [] = [] := rfl

@[simp] theorem chunkBytes_cons (x : Bytes × Bool) : chunkBytes (x :: chunks) = x.1 ++ chunkBytes chunks :=
  List.flatMap_cons

@[simp] theorem chunkBytes_append : chunkBytes (chunks ++ chunks') = chunkBytes chunks ++ chunkBytes chunks' :=
  List.flatMap_append

@[simp] theorem frameBytes_append : frameBytes (frames ++ frames') = frameBytes frames ++ frameBytes frames' :=
  List.flatMap_append

@[simp] theorem frameBytes_singleton : frameBytes [f] = f.payload := List.flatMap_singleton _ _

end Logs

theorem frameBytes_mono {frames frames' : List Frame} (h : frames <+: frames') :
    frameBytes frames <+: frameBytes frames' := by
  obtain ⟨rest, rfl⟩ := h
  rw [frameBytes_append]
  exact List.prefix_append _ _

theorem Word.snoc {fs : List Frame} (h : fs.countP Frame.ends = 0) (f : Frame) : Word (fs ++ [f]) :=
  ⟨fs, [f], rfl, fun g hg => by simpa using List.countP_eq_zero.mp h g hg, le_refl _⟩

theorem Word.of_count {fs : List Frame} (h : fs.countP Frame.ends = 0) : Word fs :=
  ⟨fs, [], (List.append_nil fs).symm, fun g hg => by simpa using List.countP_eq_zero.mp h g hg,
    Nat.zero_le _⟩

/-- Nothing comes after a frame that ends a word. -/
theorem Word.eq_of_ends {fs gs : List Frame} (h : Word gs) (hle : fs <+: gs) {f : Frame} (hf : f ∈ fs)
    (he : f.ends = true) : fs = gs := by
  obtain ⟨body, tail, rfl, hbody, htail⟩ := h
  apply hle.eq_of_length_le
  by_contra hlt
  rw [List.length_append] at hlt
  have hpre : fs <+: body := List.prefix_of_prefix_length_le hle (List.prefix_append _ _) (by omega)
  rw [hbody f (hpre.subset hf)] at he
  cases he

namespace SendDir

variable {d : SendDir} {w : List DirEvent}

theorem new_inv : SendDir.new.Inv [] := by
  refine ⟨?_, ?_, ?_, ?_, ?_, ?_, ?_, ?_, ?_, ?_, ?_, ?_, ?_, ?_⟩ <;>
    simp [SendDir.new, outs, queuedChunks, frameBytes]
  exact Word.of_count rfl

theorem Inv.enqueue (h : d.Inv w) (payload : Bytes) (fin : Bool) (hfin : d.finishing = false)
    (hterm : d.terminal = false) (hcut : d.cut = false) :
    SendDir.Inv { d with chunks := d.chunks ++ [(payload, fin)], finishing := fin }
      (w ++ [.queued payload fin]) := by
  have hd : d.dispatched = false := by
    cases hd : d.dispatched with
    | false => rfl
    | true => simpa [hterm, hfin] using (h.disp_empty hd).2
  have hr : d.resetQueued = false := by
    cases hr : d.resetQueued with
    | false => rfl
    | true => simpa [hterm] using (h.reset_empty hr).2
  have hx : ∀ x ∈ d.chunks, x.2 = false := by
    intro x hm
    cases hf : x.2 with
    | false => rfl
    | true => simpa [hterm, hfin] using h.fin_mark x hm hf
  have hb := h.bytes_eq hcut hr
  exact
    { cut_empty := by simp [hcut]
      reset_empty := by simp [hr]
      disp_empty := by simp [hd]
      exclusive := by simp [hd]
      fin_last := by
        rw [List.dropLast_concat]
        exact hx
      fin_mark := by
        intro x hm hf
        rcases List.mem_append.mp hm with hm | hm
        · rw [hx x hm] at hf
          cases hf
        · rw [List.mem_singleton.mp hm] at hf
          simp only at hf
          simp [hf]
      fin_queued := by
        intro x hm hf
        rcases List.mem_append.mp hm with hm | hm
        · rw [hx x hm] at hf
          cases hf
        · exact ⟨x, by rw [queuedChunks_queued]; exact List.mem_append_right _ hm, hf⟩
      resets_le := h.resets_le
      count_le := by simpa using h.count_le
      count_eq := by simpa using h.count_eq
      word := by simpa using h.word
      bytes_le := by
        simp only [outs_queued, queuedChunks_queued, chunkBytes_append]
        exact h.bytes_le.trans (List.prefix_append _ _)
      bytes_eq := by
        intro _ _
        simp [hb]
      bytes_done := by simp [hd] }

theorem Inv.finish (h : d.Inv w) : SendDir.Inv { d with terminal := true, finishing := false } w :=
  { h with
    reset_empty := fun hr => ⟨(h.reset_empty hr).1, rfl⟩
    disp_empty := fun hd => ⟨(h.disp_empty hd).1, rfl⟩
    fin_mark := fun _ _ _ => rfl }

theorem Inv.reset (h : d.Inv w) (hdisp : d.dispatched = false) (hres : d.resetQueued = false)
    (hcut : d.cut = false) :
    SendDir.Inv { d with chunks := [], terminal := true, resetQueued := true, resets := d.resets + 1 } w := by
  have hc := h.count_eq (.inl hcut)
  simp only [hdisp, hres, Bool.or_self, Bool.toNat_false] at hc
  exact
    { cut_empty := fun _ => rfl
      reset_empty := fun _ => ⟨rfl, rfl⟩
      disp_empty := by simp [hdisp]
      exclusive := by simp [hdisp]
      fin_last := by simp
      fin_mark := by simp
      fin_queued := by simp
      resets_le := by simp only [Bool.toNat_true]; omega
      count_le := by simp only [Bool.or_true, Bool.toNat_true]; omega
      count_eq := by
        intro _
        simp only [Bool.or_true, Bool.toNat_true]
        omega
      word := h.word
      bytes_le := h.bytes_le
      bytes_eq := by simp
      bytes_done := by simp [hdisp] }

theorem Inv.popReset (h : d.Inv w) (f : Frame) (hf : f.ends = true) (hp : f.payload = []) (n : Nat)
    (hn : d.resets = n + 1) : SendDir.Inv { d with resets := n } (w ++ [.out f]) := by
  have hle := h.count_le
  have hz : (outs w).countP Frame.ends = 0 := by
    have hb := Bool.toNat_le (d.dispatched || d.resetQueued)
    omega
  have hcount : (outs (w ++ [.out f])).countP Frame.ends = (outs w).countP Frame.ends + 1 := by
    simp [List.countP_append, hf]
  exact
    { h with
      fin_queued := by simpa using h.fin_queued
      resets_le := by
        have hr := h.resets_le
        simp only
        omega
      count_le := by rw [hcount]; simp only; omega
      count_eq := by
        intro hc
        have he := h.count_eq hc
        rw [hcount]
        simp only
        omega
      word := by
        rw [outs_out]
        exact Word.snoc hz f
      bytes_le := by simpa [hp] using h.bytes_le
      bytes_eq := by simpa [hp] using h.bytes_eq
      bytes_done := by simpa [hp] using h.bytes_done }

/-- A frame of the head chunk: the direction was neither ended nor reset, so the frame extends the
word, and its bytes move from the queue to the output. -/
theorem Inv.data (h : d.Inv w) (streamId : VarInt) (payload : Bytes) (fin : Bool)
    (rest : List (Bytes × Bool)) (count : Nat) (hc : d.chunks = (payload, fin) :: rest) :
    SendDir.Inv
      { d with
        chunks := if (payload.drop count).isEmpty then rest else (payload.drop count, fin) :: rest
        dispatched := d.dispatched || (fin && (payload.drop count).isEmpty) }
      (w ++ [.out (.stream streamId (fin && (payload.drop count).isEmpty) (payload.take count))]) := by
  have hne : d.chunks ≠ [] := by simp [hc]
  have hd : d.dispatched = false := by
    cases hd : d.dispatched with
    | false => rfl
    | true => exact absurd (h.disp_empty hd).1 hne
  have hr : d.resetQueued = false := by
    cases hr : d.resetQueued with
    | false => rfl
    | true => exact absurd (h.reset_empty hr).1 hne
  have hcut : d.cut = false := by
    cases hcut : d.cut with
    | false => rfl
    | true => exact absurd (h.cut_empty hcut) hne
  have hz := h.count_eq (.inl hcut)
  simp only [hd, hr, Bool.or_self, Bool.toNat_false, Nat.add_eq_zero_iff] at hz
  have hb := h.bytes_eq hcut hr
  rw [hc, chunkBytes_cons] at hb
  have hbytes : chunkBytes (queuedChunks w) = frameBytes (outs w) ++ payload.take count ++
      chunkBytes (if (payload.drop count).isEmpty then rest else (payload.drop count, fin) :: rest) := by
    rw [hb]
    split_ifs with hl
    · have ht : payload.take count = payload := by
        have := List.take_append_drop count payload
        rwa [List.isEmpty_iff.mp hl, List.append_nil] at this
      rw [ht, List.append_assoc]
    · rw [chunkBytes_cons, List.append_assoc, ← List.append_assoc (payload.take count),
        List.take_append_drop]
  have hlast : ∀ x ∈ (if (payload.drop count).isEmpty then rest else (payload.drop count, fin) :: rest),
      x.2 = true → fin = true ∨ x ∈ rest := by
    intro x hm hx
    split_ifs at hm with hl
    · exact .inr hm
    · rcases List.mem_cons.mp hm with rfl | hm
      · exact .inl hx
      · exact .inr hm
  have hrest : fin = true → rest = [] := by
    intro hf
    cases rest with
    | nil => rfl
    | cons y ys =>
      have := h.fin_last (payload, fin) (by rw [hc]; simp)
      simp [hf] at this
  have hmark : fin = true → (d.terminal || d.finishing) = true := fun hf =>
    h.fin_mark (payload, fin) (by simp [hc]) hf
  have hqueued : fin = true → ∃ y ∈ queuedChunks w, y.2 = true := fun hf =>
    h.fin_queued (payload, fin) (by simp [hc]) hf
  exact
    { cut_empty := by simp [hcut]
      reset_empty := by simp [hr]
      disp_empty := by
        intro hdisp
        simp only [hd, Bool.false_or, Bool.and_eq_true] at hdisp
        rw [if_pos hdisp.2]
        exact ⟨hrest hdisp.1, hmark hdisp.1⟩
      exclusive := fun _ => hr
      fin_last := by
        have hl := h.fin_last
        rw [hc] at hl
        simp only
        split_ifs with hempty
        · intro x hx
          cases rest with
          | nil => cases hx
          | cons y ys => exact hl x (by simp [hx])
        · intro x hx
          cases rest with
          | nil => cases hx
          | cons y ys =>
            rw [List.dropLast_cons_cons] at hx hl
            rcases List.mem_cons.mp hx with rfl | hx
            · exact hl (payload, fin) List.mem_cons_self
            · exact hl x (List.mem_cons_of_mem _ hx)
      fin_mark := by
        intro x hm hx
        rcases hlast x hm hx with hf | hm
        · exact hmark hf
        · exact h.fin_mark x (by simp [hc, hm]) hx
      fin_queued := by
        intro x hm hx
        rw [queuedChunks_out]
        rcases hlast x hm hx with hf | hm
        · exact hqueued hf
        · exact h.fin_queued x (by simp [hc, hm]) hx
      resets_le := h.resets_le
      count_le := by
        simp only [outs_out, List.countP_append, List.countP_singleton, Frame.ends, hd, hr, hz.1, hz.2,
          Bool.false_or, Bool.or_false]
        cases fin && (payload.drop count).isEmpty <;> simp
      count_eq := by
        intro _
        simp only [outs_out, List.countP_append, List.countP_singleton, Frame.ends, hd, hr, hz.1, hz.2,
          Bool.false_or, Bool.or_false]
        cases fin && (payload.drop count).isEmpty <;> simp
      word := by
        rw [outs_out]
        exact Word.snoc hz.1 _
      bytes_le := by
        simp only [outs_out, queuedChunks_out, frameBytes_append, frameBytes_singleton, Frame.payload]
        rw [hbytes]
        exact List.prefix_append _ _
      bytes_eq := by
        intro _ _
        simp only [outs_out, queuedChunks_out, frameBytes_append, frameBytes_singleton, Frame.payload]
        exact hbytes
      bytes_done := by
        intro hdisp
        simp only [hd, Bool.false_or, Bool.and_eq_true] at hdisp
        simp only [outs_out, queuedChunks_out, frameBytes_append, frameBytes_singleton, Frame.payload]
        rw [if_pos hdisp.2, hrest hdisp.1, chunkBytes_nil, List.append_nil] at hbytes
        exact ⟨hbytes, hqueued hdisp.1⟩ }

theorem Inv.cut (h : d.Inv w) : SendDir.Inv { d with chunks := [], resets := 0, cut := true } w := by
  have hle := h.count_le
  exact
    { h with
      cut_empty := fun _ => rfl
      reset_empty := fun hr => ⟨rfl, (h.reset_empty hr).2⟩
      disp_empty := fun hd => ⟨rfl, (h.disp_empty hd).2⟩
      fin_last := by simp
      fin_mark := by simp
      fin_queued := by simp
      resets_le := Nat.zero_le _
      count_le := by simp only [Nat.add_zero]; omega
      count_eq := by
        intro hc
        have hd : d.dispatched = true := by simpa using hc
        have he := h.count_eq (.inr hd)
        have hr := h.resets_le
        rw [h.exclusive hd, Bool.toNat_false] at hr
        simp only
        omega
      bytes_eq := by simp }

theorem step_inv (d d' : SendDir) (w log : List DirEvent) (h : d.Inv w) (hs : DirStep d log d') :
    d'.Inv (w ++ log) := by
  cases hs with
  | skip => rwa [List.append_nil]
  | enqueue payload fin hfin hterm hcut => exact h.enqueue payload fin hfin hterm hcut
  | finish _ => rw [List.append_nil]; exact h.finish
  | reset hdisp hres hcut => rw [List.append_nil]; exact h.reset hdisp hres hcut
  | popReset streamId code n hn => exact h.popReset _ rfl rfl n hn
  | data streamId payload fin rest count hc => exact h.data streamId payload fin rest count hc
  | cut => rw [List.append_nil]; exact h.cut

theorem reach_inv (h : machine.Reach d w) : d.Inv w :=
  h.invariant SendDir.Inv (fun d (hi : d = SendDir.new) => hi ▸ new_inv) fun d w log d' _ hd hs =>
    step_inv d d' w log hd hs

/-- A FIN that was emitted was dispatched. -/
theorem reach_fin (h : machine.Reach d w) {streamId : VarInt} {payload : Bytes}
    (hf : .stream streamId true payload ∈ outs w) : d.dispatched = true := by
  refine h.invariant (fun d w => .stream streamId true payload ∈ outs w → d.dispatched = true) ?_ ?_ hf
  · intro d _ hm
    cases hm
  · intro d w evs d' _ ih hs hm
    cases hs with
    | popReset j code n hn =>
      rw [outs_out, List.mem_append, List.mem_singleton] at hm
      rcases hm with hm | hm
      · exact ih hm
      · cases hm
    | data j data fin rest count hc =>
      rw [outs_out, List.mem_append, List.mem_singleton] at hm
      rcases hm with hm | hm
      · simp [ih hm]
      · simp only [Frame.stream.injEq] at hm
        simp [← hm.2.1]
    | enqueue data fin => exact ih (by rwa [outs_queued] at hm)
    | _ => exact ih (by rwa [List.append_nil] at hm)

end SendDir
end Muxtls
