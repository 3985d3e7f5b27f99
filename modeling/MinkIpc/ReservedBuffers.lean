import MinkIpc.MarshalIn

/-! Where the callee puts the output buffers it reserves for a request. The second loop keeps its
pad from one buffer to the next. -/

namespace MinkIpc

open Bytes

def sizeActual (sizes : List Nat) : Nat :=
  (sizes.map fun s => if s ≠ 0 then padded s else lxcomMsgAlignment).sum

structure Area where
  start : Nat
  size : Nat
  deriving DecidableEq, Repr

def reservedArea (env : Env) (bufResv sizeResv : Nat) (sizes : List Nat) :
    Except ObjectError Area :=
  if sizeActual sizes > sizeResv then
    if sizeActual sizes > msgBufferMax - 4 then .error .invalid
    else match env.reserve (sizeActual sizes + 4) with
      | none => .error .kmem
      | some ptr => .ok ⟨ptr, sizeActual sizes + 4⟩
  else .ok ⟨bufResv, sizeResv⟩

structure Reserved (area : Area) (bo : List (Nat × Nat)) : Prop where
  aligned : ∀ b ∈ bo, b.1 % lxcomMsgAlignment = 0
  disjoint : bo.Pairwise fun b c => b.1 + b.2 ≤ c.1 ∨ c.1 + c.2 ≤ b.1
  inside : ∀ b ∈ bo, area.start ≤ b.1 ∧ b.1 + b.2 ≤ area.start + area.size

-- What is left over at the start of each buffer when all before it are aligned.
def remainders : Nat → List Nat → List Nat
  | _, [] => []
  | start, s :: ss => start % lxcomMsgAlignment :: remainders s ss

structure Regular (start : Nat) (area : Nat) (sizes : List Nat) : Prop where
  order : (remainders start sizes).Pairwise fun r r' => r ≠ 0 → r' ≠ 0
  room : layoutEnd start sizes ≤ start + area
  checked : layoutEnd start sizes ≤ start + (sizeActual sizes + 4)

theorem marshalInReserveBuffer_eq (env : Env) (bufResv sizeResv : Nat) (sizes : List Nat) :
    marshalInReserveBuffer env bufResv sizeResv sizes =
      (reservedArea env bufResv sizeResv sizes).bind fun area =>
        reserveLoop sizes area.start (sizeActual sizes + 4) 0 := by
  have hsum : (sizes.map fun s => if s ≠ 0 then padded s else lxcomMsgAlignment).sum =
      sizeActual sizes := rfl
  unfold marshalInReserveBuffer reservedArea
  simp only [hsum]
  split_ifs
  · rfl
  · cases env.reserve (sizeActual sizes + 4) <;> rfl
  · rfl

theorem remainders_congr {p q : Nat} (h : p % 8 = q % 8) (sizes : List Nat) :
    remainders p sizes = remainders q sizes := by
  cases sizes with
  | nil => rfl
  | cons s ss => simp [remainders, lxcomMsgAlignment, h]

theorem sizeActual_cons (s : Nat) (ss : List Nat) : s + sizeActual ss ≤ sizeActual (s :: ss) := by
  have hp := le_padded s
  simp only [sizeActual, List.map_cons, List.sum_cons]
  split_ifs <;> omega

theorem subSize_of_le {x y : Nat} (hx : x < 2 ^ 64) (hy : y ≤ x) : subSize x y = x - y := by
  unfold subSize
  omega

section Loop

variable {sizes : List Nat} {s ptr sizeRemain pad : Nat} {bo : List (Nat × Nat)}

theorem padded_of_mod (h : ptr % 8 = 0) : padded ptr = ptr := by
  rw [padded_eq]
  omega

theorem padded_of_ne (h : ptr % 8 ≠ 0) : padded ptr = ptr + (8 - ptr % 8) := by
  rw [padded_eq]
  omega

theorem reserveLoop_cons_of_mod (h : ptr % 8 = 0) : reserveLoop (s :: sizes) ptr sizeRemain pad =
      (reserveLoop sizes (ptr + pad + s) (subSize sizeRemain (pad + s)) pad).map
        ((ptr + pad, s) :: ·) := by
  simp [reserveLoop, lxcomMsgAlignment, h]

theorem reserveLoop_cons_of_ne (h : ptr % 8 ≠ 0) : reserveLoop (s :: sizes) ptr sizeRemain pad =
      if 8 - ptr % 8 + s ≤ sizeRemain then
        (reserveLoop sizes (padded ptr + s) (subSize sizeRemain (8 - ptr % 8 + s))
          (8 - ptr % 8)).map ((padded ptr, s) :: ·)
      else .error .invalid := by
  rw [padded_of_ne h]
  by_cases hfit : 8 - ptr % 8 + s ≤ sizeRemain
  · have hpad : ¬ 8 - ptr % 8 > sizeRemain := by omega
    simp [reserveLoop, lxcomMsgAlignment, h, hfit, hpad]
  · simp [reserveLoop, lxcomMsgAlignment, h, hfit]

theorem map_cons_eq_ok {x : Except ObjectError (List (Nat × Nat))} {b : Nat × Nat}
    (h : x.map (b :: ·) = .ok bo) : ∃ rest, x = .ok rest ∧ bo = b :: rest := by
  cases x with
  | error e => cases h
  | ok rest =>
    cases h
    exact ⟨rest, rfl, rfl⟩

theorem reserveLoop_cons_aligned {ss : List Nat}
    (h : reserveLoop (s :: ss) ptr sizeRemain pad = .ok bo) (ha : ∀ b ∈ bo, b.1 % 8 = 0)
    (hpad : pad < 8) :
    (ptr % 8 = 0 ∧ pad = 0 ∧ ∃ rest, reserveLoop ss (ptr + s) (subSize sizeRemain s) 0 = .ok rest ∧
        ∀ b ∈ rest, b.1 % 8 = 0) ∨
    (ptr % 8 ≠ 0 ∧ 8 - ptr % 8 + s ≤ sizeRemain ∧
      ∃ rest, reserveLoop ss (padded ptr + s) (subSize sizeRemain (8 - ptr % 8 + s))
          (8 - ptr % 8) = .ok rest ∧ ∀ b ∈ rest, b.1 % 8 = 0) := by
  by_cases hmod : ptr % 8 = 0
  · left
    rw [reserveLoop_cons_of_mod hmod] at h
    obtain ⟨rest, hrest, rfl⟩ := map_cons_eq_ok h
    have hfirst : (ptr + pad) % 8 = 0 := ha _ List.mem_cons_self
    have hzero : pad = 0 := by omega
    subst hzero
    rw [Nat.zero_add] at hrest
    exact ⟨hmod, rfl, rest, hrest, fun b hb => ha b (List.mem_cons_of_mem _ hb)⟩
  · right
    rw [reserveLoop_cons_of_ne hmod] at h
    split_ifs at h with hfit
    obtain ⟨rest, hrest, rfl⟩ := map_cons_eq_ok h
    exact ⟨hmod, hfit, rest, hrest, fun b hb => ha b (List.mem_cons_of_mem _ hb)⟩

theorem reserveLoop_aligned (h : reserveLoop sizes ptr sizeRemain pad = .ok bo)
    (ha : ∀ b ∈ bo, b.1 % 8 = 0) (hpad : pad < 8) :
    (pad ≠ 0 → ∀ r ∈ remainders ptr sizes, r ≠ 0) ∧
      (remainders ptr sizes).Pairwise fun r r' => r ≠ 0 → r' ≠ 0 := by
  induction sizes generalizing ptr sizeRemain pad bo with
  | nil => simp [remainders]
  | cons s ss ih =>
    rcases reserveLoop_cons_aligned h ha hpad with
      ⟨hmod, rfl, rest, hrest, hrestAligned⟩ | ⟨hmod, -, rest, hrest, hrestAligned⟩
    · have hnext := (ih hrest hrestAligned hpad).2
      rw [remainders_congr (show (ptr + s) % 8 = s % 8 by omega)] at hnext
      refine ⟨absurd rfl, .cons (fun r _ h0 => ?_) hnext⟩
      exact absurd hmod h0
    · obtain ⟨hall, hnext⟩ := ih hrest hrestAligned (by omega)
      have hfirst : padded ptr % 8 = 0 := by
        rw [padded_eq]
        omega
      rw [remainders_congr (show (padded ptr + s) % 8 = s % 8 by omega)] at hall hnext
      have hrests := hall (by omega)
      refine ⟨fun _ r hr => ?_, .cons (fun r hr _ => hrests r hr) hnext⟩
      rcases List.mem_cons.mp hr with rfl | hr
      · exact hmod
      · exact hrests r hr

theorem layoutEnd_le_of_reserveLoop (h : reserveLoop sizes ptr sizeRemain pad = .ok bo)
    (ha : ∀ b ∈ bo, b.1 % 8 = 0) (hpad : pad < 8) (hsize : sizeRemain < 2 ^ 64)
    (hroom : pad = 0 → sizeActual sizes ≤ sizeRemain ∨ ptr % 8 ≠ 0) :
    layoutEnd ptr sizes ≤ ptr + sizeRemain := by
  induction sizes generalizing ptr sizeRemain pad bo with
  | nil => exact Nat.le_add_right _ _
  | cons s ss ih =>
    rcases reserveLoop_cons_aligned h ha hpad with
      ⟨hmod, rfl, rest, hrest, hrestAligned⟩ | ⟨hmod, hfit, rest, hrest, hrestAligned⟩
    · have hcons := sizeActual_cons s ss
      rw [subSize_of_le hsize (by omega)] at hrest
      have hend := ih hrest hrestAligned hpad (by omega) (fun _ => .inl (by omega))
      rw [layoutEnd, padded_of_mod hmod]
      omega
    · rw [subSize_of_le hsize hfit] at hrest
      have hend := ih hrest hrestAligned (by omega) (by omega) (fun h0 => absurd h0 (by omega))
      have hp := padded_of_ne hmod
      rw [layoutEnd]
      omega

theorem reserveLoop_of_regular (horder : (remainders ptr sizes).Pairwise fun r r' => r ≠ 0 → r' ≠ 0)
    (hused : pad ≠ 0 → ∀ r ∈ remainders ptr sizes, r ≠ 0) (hsize : sizeRemain < 2 ^ 64)
    (hroom : layoutEnd ptr sizes ≤ ptr + sizeRemain) :
    reserveLoop sizes ptr sizeRemain pad = .ok (layoutRanges ptr sizes) := by
  induction sizes generalizing ptr sizeRemain pad with
  | nil => rfl
  | cons s ss ih =>
    have hle := le_layoutEnd (padded ptr + s) ss
    rw [layoutEnd] at hroom
    obtain ⟨hhead, htail⟩ := List.pairwise_cons.mp horder
    have hmods : (padded ptr + s) % 8 = s % 8 := by
      rw [padded_eq]
      omega
    rw [← remainders_congr hmods] at hhead htail
    rw [layoutRanges]
    by_cases hmod : ptr % 8 = 0
    · have hzero : pad = 0 := by
        by_contra h0
        exact hused h0 _ List.mem_cons_self hmod
      subst hzero
      rw [padded_of_mod hmod] at hle hroom htail ⊢
      rw [reserveLoop_cons_of_mod hmod, Nat.add_zero,
        subSize_of_le hsize (by omega), ih htail (absurd rfl) (by omega) (by omega)]
      rfl
    · have hp := padded_of_ne hmod
      rw [reserveLoop_cons_of_ne hmod, if_pos (by omega), subSize_of_le hsize (by omega),
        ih htail (fun _ r hr => hhead r hr hmod) (by omega) (by omega)]
      rfl

end Loop

section Sound

variable (env : Env) (data : Mem) (bufResv sizeResv : Nat)

structure ReserveSound : Prop where
  reserved : ∀ bo, reserveBO env data bufResv sizeResv = .ok bo →
    ∃ area, reservedArea env bufResv sizeResv (reqSizesBO data) = .ok area ∧ Reserved area bo
  succeeds : ∀ area, reservedArea env bufResv sizeResv (reqSizesBO data) = .ok area →
    ∃ bo, reserveBO env data bufResv sizeResv = .ok bo

end Sound

theorem reserved_layoutRanges {area : Area} {sizes : List Nat}
    (h : layoutEnd area.start sizes ≤ area.start + area.size) :
    Reserved area (layoutRanges area.start sizes) where
  aligned _ hb := layoutRanges_mod hb
  disjoint := (layoutRanges_pairwise _ _).imp .inl
  inside b hb := by
    have hbounds := layoutRanges_bounds hb
    exact ⟨hbounds.1, by omega⟩

theorem sizeActual_reqSizesBO_lt (data : Mem) : sizeActual (reqSizesBO data) + 4 < 2 ^ 64 := by
  have hword : ∀ s ∈ reqSizesBO data, s < 2 ^ 32 := by
    intro s hs
    obtain ⟨i, -, rfl⟩ := List.mem_map.mp hs
    exact word_lt _ _ _
  have hlen : (reqSizesBO data).length < 16 := by
    simp only [reqSizesBO, List.length_map, List.length_range, numBO]
    omega
  have hsum : ∀ sizes : List Nat, (∀ s ∈ sizes, s < 2 ^ 32) →
      sizeActual sizes ≤ sizes.length * (2 ^ 32 + 8) := by
    intro sizes hsizes
    induction sizes with
    | nil => exact Nat.le_refl _
    | cons s ss ih =>
      have hs := hsizes s List.mem_cons_self
      have hss := ih fun x hx => hsizes x (List.mem_cons_of_mem _ hx)
      simp only [sizeActual, List.map_cons, List.sum_cons, List.length_cons] at hss ⊢
      have hpad : (if s ≠ 0 then padded s else lxcomMsgAlignment) ≤ 2 ^ 32 + 8 := by
        rw [padded_eq]
        split_ifs
        · omega
        · decide
      omega
  have hbound := hsum _ hword
  omega

/-- Buffers of these sizes can be reserved: there is memory for their padded total, and none that
starts aligned follows one that did not. -/
structure Reservable (env : Env) (bufResv sizeResv : Nat) (sizes : List Nat) : Prop where
  memory : sizeResv < sizeActual sizes →
    sizeActual sizes ≤ msgBufferMax - 4 ∧ (env.reserve (sizeActual sizes + 4)).isSome
  regular : ∀ area, reservedArea env bufResv sizeResv sizes = .ok area →
    Regular area.start area.size sizes

theorem Reservable.reserveBO {env : Env} {data : Mem} {bufResv sizeResv : Nat}
    (h : Reservable env bufResv sizeResv (reqSizesBO data)) :
    ∃ bo, reserveBO env data bufResv sizeResv = .ok bo ∧ bo.map Prod.snd = reqSizesBO data := by
  unfold MinkIpc.reserveBO
  split_ifs with hbo
  · obtain ⟨area, harea⟩ : ∃ area, reservedArea env bufResv sizeResv (reqSizesBO data) =
        .ok area := by
      unfold reservedArea
      split_ifs with hmore hmax
      · exact absurd (h.memory hmore).1 (Nat.not_le.mpr hmax)
      · obtain ⟨ptr, hptr⟩ := Option.isSome_iff_exists.mp (h.memory hmore).2
        exact ⟨_, by rw [hptr]⟩
      · exact ⟨_, rfl⟩
    have hreg := h.regular area harea
    refine ⟨layoutRanges area.start (reqSizesBO data), ?_, map_snd_layoutRanges _ _⟩
    rw [marshalInReserveBuffer_eq, harea]
    exact reserveLoop_of_regular hreg.order (absurd rfl) (sizeActual_reqSizesBO_lt data) hreg.checked
  · exact ⟨[], rfl, by simp [reqSizesBO, not_not.mp hbo]⟩

/-- The output buffers are reserved aligned, apart and inside their area exactly if their sizes are
regular. -/
theorem reserveBO_sound_iff (env : Env) (data : Mem) (bufResv sizeResv : Nat)
    (hbo : numBO (reqK data) ≠ 0) :
    ReserveSound env data bufResv sizeResv ↔
      ∀ area, reservedArea env bufResv sizeResv (reqSizesBO data) = .ok area →
        Regular area.start area.size (reqSizesBO data) := by
  have hres : ∀ area, reservedArea env bufResv sizeResv (reqSizesBO data) = .ok area →
      reserveBO env data bufResv sizeResv =
        reserveLoop (reqSizesBO data) area.start (sizeActual (reqSizesBO data) + 4) 0 := by
    intro area harea
    rw [reserveBO, if_pos hbo, marshalInReserveBuffer_eq, harea]
    rfl
  have hlt := sizeActual_reqSizesBO_lt data
  constructor
  · intro hsound area harea
    obtain ⟨bo, hok⟩ := hsound.succeeds area harea
    obtain ⟨area', harea', hin⟩ := hsound.reserved bo hok
    obtain rfl : area = area' := Except.ok.inj (harea.symm.trans harea')
    rw [hres area harea] at hok
    obtain ⟨-, horder⟩ := reserveLoop_aligned hok hin.aligned (by decide)
    have hchecked := layoutEnd_le_of_reserveLoop hok hin.aligned (by decide) hlt
      (fun _ => .inl (Nat.le_add_right _ _))
    rw [reserveLoop_of_regular horder (absurd rfl) hlt hchecked] at hok
    obtain rfl := Except.ok.inj hok
    have hne : reqSizesBO data ≠ [] := by simpa [reqSizesBO] using hbo
    obtain ⟨r, hr, hend⟩ := exists_layoutRanges_end area.start hne
    exact ⟨horder, hend ▸ (hin.inside r hr).2, hchecked⟩
  · intro hreg
    have hok : ∀ area, reservedArea env bufResv sizeResv (reqSizesBO data) = .ok area →
        reserveBO env data bufResv sizeResv = .ok (layoutRanges area.start (reqSizesBO data)) := by
      intro area harea
      have h := hreg area harea
      rw [hres area harea, reserveLoop_of_regular h.order (absurd rfl) hlt h.checked]
    refine ⟨fun bo hbo' => ?_, fun area harea => ⟨_, hok area harea⟩⟩
    cases harea : reservedArea env bufResv sizeResv (reqSizesBO data) with
    | error e =>
      rw [reserveBO, if_pos hbo, marshalInReserveBuffer_eq, harea] at hbo'
      cases hbo'
    | ok area =>
      obtain rfl := Except.ok.inj ((hok area harea).symm.trans hbo')
      exact ⟨area, rfl, reserved_layoutRanges (hreg area harea).room⟩

def outputRequest (sizes : List Nat) : Mem :=
  write (fun _ => 0) 20 (le 4 (16 * sizes.length) ++ sizes.flatMap (le 4))

theorem reserveBO_sound_unaligned : numBO (reqK (outputRequest [16, 5, 3])) ≠ 0 ∧
      ReserveSound healthyEnv (outputRequest [16, 5, 3]) 64 1024 := by
  have hbo : numBO (reqK (outputRequest [16, 5, 3])) ≠ 0 := by decide
  refine ⟨hbo, (reserveBO_sound_iff _ _ _ _ hbo).mpr fun area harea => ?_⟩
  have harea' : reservedArea healthyEnv 64 1024 (reqSizesBO (outputRequest [16, 5, 3])) =
      .ok ⟨64, 1024⟩ := rfl
  obtain rfl := Except.ok.inj (harea'.symm.trans harea)
  exact ⟨by decide, by decide, by decide⟩

/-- A multiple of eight after an odd size: the third buffer is neither aligned nor inside the
memory allocated for the three. -/
theorem reserveBO_stale_pad :
    reservedArea healthyEnv 0 1024 (reqSizesBO (outputRequest [1, 512, 512])) = .ok ⟨0, 1036⟩ ∧
      reserveBO healthyEnv (outputRequest [1, 512, 512]) 0 1024 =
        .ok [(0, 1), (8, 512), (527, 512)] ∧
      527 % lxcomMsgAlignment ≠ 0 ∧ ¬ 527 + 512 ≤ 0 + 1036 :=
  ⟨rfl, rfl, by decide, by decide⟩

end MinkIpc
