import MinkIpc.MarshalIn

/-! Where the buffers of a received message lie. The callee checks where an input buffer starts, the
caller where an output buffer ends. -/

namespace MinkIpc

open Bytes

/-- The input buffers of an accepted request lie between its argument vector and the
end of the `sizeData` bytes received exactly when the sizes it declares do. -/
theorem marshalInCallee_bi_contained_iff {sock : MinkSocket} {table : Table} {env : Env}
    {data : Mem} {fds : List Int} {bufResv sizeResv : Nat} {args : CalleeArgs}
    (h : marshalInCallee sock table env data fds bufResv sizeResv = .ok args) (sizeData : Nat) :
    (∀ r ∈ args.bi, sizeReq sock data ≤ r.1 ∧ r.1 + r.2 ≤ sizeData) ↔
      numBI (reqK data) = 0 ∨ layoutEnd (sizeReq sock data) (reqSizesBI data) ≤ sizeData := by
  obtain ⟨-, -, hbi, -, -⟩ := marshalInCallee_eq_ok.mp h
  rw [marshalInCalleeBuffers_eq hbi]
  constructor
  · intro hin
    by_cases h0 : numBI (reqK data) = 0
    · exact .inl h0
    · have hne : reqSizesBI data ≠ [] := by simpa [reqSizesBI] using h0
      obtain ⟨r, hr, he⟩ := exists_layoutRanges_end (sizeReq sock data) hne
      exact .inr (he ▸ (hin r hr).2)
  · rintro (h0 | hend) r hr
    · simp [reqSizesBI, h0, layoutRanges] at hr
    · have hb := layoutRanges_bounds hr
      exact ⟨hb.1, by omega⟩

def inputRequest (size sizeArg : Nat) : Mem :=
  write (fun _ => 0) 0 (le 4 size ++ le 4 1 ++ le 4 7 ++ le 4 1 ++ le 4 0 ++ le 4 1 ++ le 4 sizeArg)

theorem marshalInCallee_bi_contained_eight :
    marshalInCallee localSock (ObjectTable.construct 1024) healthyEnv (inputRequest 40 8) [] 0
      1024 = .ok ⟨[(32, 8)], [], ⟨1, 0, [], []⟩⟩ ∧
    sizeReq localSock (inputRequest 40 8) ≤ 32 ∧ 32 + 8 ≤ 40 := by
  have h : marshalInCallee localSock (ObjectTable.construct 1024) healthyEnv (inputRequest 40 8)
      [] 0 1024 = .ok ⟨[(32, 8)], [], ⟨1, 0, [], []⟩⟩ := by decide
  have hin := (marshalInCallee_bi_contained_iff h 40).mpr (.inr (by decide))
  exact ⟨h, hin (32, 8) (List.mem_singleton.mpr rfl)⟩

theorem marshalInCallee_accepts_overlong_bi :
    marshalInCallee localSock (ObjectTable.construct 1024) healthyEnv (inputRequest 32 1000) [] 0
      1024 = .ok ⟨[(32, 1000)], [], ⟨1, 0, [], []⟩⟩ ∧
    hdrSize (inputRequest 32 1000) = 32 ∧ ¬ 32 + 1000 ≤ 32 := by
  decide

def OutBuffer.Fits (b : OutBuffer) : Prop := b.written.length ≤ b.supplied ∧ b.size ≤ b.supplied

def succSizes (data : Mem) (j n : Nat) : List Nat := (List.range' j n).map (argSize data succArgs)

theorem succSizes_succ (data : Mem) (j n : Nat) :
    succSizes data j (n + 1) = argSize data succArgs j :: succSizes data (j + 1) n := by
  simp [succSizes, List.range'_succ]

theorem marshalInCallerBuffers_fits_iff {data : Mem} {sizeMax : Nat} {bo : List OutBuffer}
    {j start : Nat} (hnew : ∀ b ∈ bo, b.Fits) :
    (∀ b ∈ (marshalInCallerBuffers data sizeMax bo j start).state, b.Fits) ↔
      ∀ i b, bo[i]? = some b → layoutEnd start (succSizes data j (i + 1)) ≤ sizeMax →
        argSize data succArgs (j + i) ≤ b.supplied := by
  induction bo generalizing j start with
  | nil => simp [marshalInCallerBuffers, Outcome.state]
  | cons b bs ih =>
    have hp := le_padded start
    have hpad : start + (padded start - start) = padded start := by omega
    have hend : ∀ i, layoutEnd start (succSizes data j (i + 1)) =
        layoutEnd (padded start + argSize data succArgs j) (succSizes data (j + 1) i) := by
      intro i
      rw [succSizes_succ, layoutEnd]
    simp only [marshalInCallerBuffers, marshalInCallerBuffer, hpad]
    split_ifs with hfit
    · refine ⟨fun _ i b' _ hle => ?_, fun _ => hnew⟩
      have hle' := le_layoutEnd (padded start + argSize data succArgs j) (succSizes data (j + 1) i)
      rw [hend] at hle
      omega
    · have hnext : start + (padded start - start + argSize data succArgs j) =
          padded start + argSize data succArgs j := by omega
      have ih' := @ih (j + 1) (padded start + argSize data succArgs j)
        fun b' hb' => hnew b' (List.mem_cons_of_mem _ hb')
      simp only [hnext, Outcome.state_map, List.forall_mem_cons, ih']
      constructor
      · rintro ⟨hb, hrest⟩ i b' hi hle
        cases i with
        | zero =>
          cases hi
          exact hb.2
        | succ i =>
          have hr := hrest i b' hi hle
          rwa [show j + 1 + i = j + (i + 1) by omega] at hr
      · intro hall
        refine ⟨?_, fun i b' hi hle => ?_⟩
        · have h0 := hall 0 b (by simp) (by simpa [succSizes, layoutEnd] using hfit)
          exact ⟨by simpa using h0, h0⟩
        · have hr := hall (i + 1) b' hi (by rw [hend]; exact hle)
          rwa [show j + (i + 1) = j + 1 + i by omega] at hr

/-- No output buffer gets more bytes than its caller supplied, and none is reported larger, exactly
when every declared size in use fits its buffer. -/
theorem marshalInCaller_bo_contained_iff (sock : MinkSocket) (table : Table) (env : Env)
    (data : Mem) (fds : List Int) (k : Nat) (supplied : List Nat) :
    (∀ b ∈ (marshalInCaller sock table env data fds k (supplied.map .new)).state.bo, b.Fits) ↔
      (sizeSucc sock data k ≤ hdrSize data → ∀ j n, supplied[j]? = some n →
        layoutEnd (sizeSucc sock data k) (succSizes data 0 (j + 1)) ≤ hdrSize data →
        argSize data succArgs j ≤ n) := by
  have hnew : ∀ b ∈ supplied.map OutBuffer.new, b.Fits := by
    intro b hb
    obtain ⟨n, -, rfl⟩ := List.mem_map.mp hb
    simp [OutBuffer.new, OutBuffer.Fits]
  by_cases h : sizeSucc sock data k ≤ hdrSize data
  · have hbo : (marshalInCaller sock table env data fds k (supplied.map .new)).state.bo =
        (marshalInCallerBuffers data (hdrSize data) (supplied.map .new) 0
          (sizeSucc sock data k)).state := by
      unfold marshalInCaller
      rw [if_neg (Nat.not_lt.mpr h), if_neg (Nat.not_lt.mpr (total_le k))]
      cases marshalInCallerBuffers data (hdrSize data) (supplied.map .new) 0
          (sizeSucc sock data k) with
      | error e bo => rfl
      | ok bo =>
        dsimp only
        split <;> rfl
    rw [hbo, marshalInCallerBuffers_fits_iff hnew]
    simp only [h, true_imp_iff, Nat.zero_add, List.getElem?_map, Option.map_eq_some_iff]
    constructor
    · rintro hall j n hj
      exact hall j _ ⟨n, hj, rfl⟩
    · rintro hall j _ ⟨n, hj, rfl⟩
      exact hall j n hj
  · have hbo : (marshalInCaller sock table env data fds k (supplied.map .new)).state.bo =
        supplied.map .new := by
      unfold marshalInCaller
      rw [if_pos (Nat.not_le.mp h)]
      rfl
    rw [hbo]
    exact ⟨fun _ hle => absurd hle h, fun _ => hnew⟩

def oneBufferResponse (sizeArg : Nat) : Mem :=
  write (fun _ => 0) 0 (le 4 (16 + sizeArg) ++ le 4 2 ++ le 4 7 ++ le 4 sizeArg)

theorem marshalInCaller_overruns_bo :
    (marshalInCaller localSock (ObjectTable.construct 1024) healthyEnv (oneBufferResponse 8) [] 16
      [.new 4]).state.bo = [⟨4, [0, 0, 0, 0, 0, 0, 0, 0], 8⟩] := by
  decide

end MinkIpc
