import LinuxC.Ipc.RecvMsg
import LinuxC.Ipc.Reception

/-!
# The ways of a message into the server (`ipc/ipc_server.c`)

A client sends a message on a new connection, and the handler of the master receives it with
`recv_msg`; or it sends it on its own connection, and `ipc_common_socket_handler` finds it in the
buffer of the core.  A `Branch` is a part of the `switch` that both of them have.

For a message that is alone on its way, the way does not matter (`Via.handled_frame`): nor do the
pieces in which it arrives, nor what the buffers held before.
-/

namespace LinuxC.Ipc

/-- A branch of the `switch`. -/
structure Branch (α : Type) where
  takes : IpcMsg → Bool
  handle : IpcMsg → α
  /-- The message as the branch leaves it in the buffer. -/
  leaves : IpcMsg → α → List UInt8

/-- The state is the list of what the branch has made of its messages. -/
def Branch.hooks {α : Type} (br : Branch α) : Hooks (List α) where
  dispatch s m a :=
    let msg := readMsg m a
    if br.takes msg then
      let r := br.handle msg
      ⟨s ++ [r], br.leaves msg r, true⟩
    else ⟨s, [], true⟩
  shutdown s := s
  release s := s

/-- The way of a message, in pieces: on a new connection with the buffer that `recv_msg` receives
into, or on the connection of a client with the buffer and the clone of the core. -/
inductive Via
  | temporary (chunks : List (List UInt8)) (block : Mem)
  | connected (chunks : List (List UInt8)) (buf : IpcBuf) (clone : Mem)

/-- The pieces. -/
def Via.chunks : Via → List (List UInt8)
  | .temporary chunks _ => chunks
  | .connected chunks _ _ => chunks

section Ways

variable {α : Type} {br : Branch α} {size : ℕ} {f : IpcMsg}

/-- What the branch makes of the bytes that come in; `size` is the size of the buffers.  There is no
result when the kernel cannot deliver the pieces. -/
def Via.handled (br : Branch α) (size : ℕ) : Via → Option (List α)
  | .temporary chunks block =>
      if chunks.any List.isEmpty then none
      else
        match recvMsg size 1 (chunks.map .bytes) block with
        | some (.ok _, m) =>
            let msg := readMsg m 0
            some (if br.takes msg then [br.handle msg] else [])
        | some (.error _, _) => some []
        | none => none
  | .connected chunks buf clone =>
      let calls :=
        serve br.hooks chunks.length (chunks.map .bytes) ⟨{ buf with size := size }, clone, []⟩
      if calls.any fun r => r.exit = .illegal then none
      else some (lastConn ⟨buf, clone, []⟩ calls).state

/-- The state is what the branch makes of the messages dispatched to it. -/
lemma tracks_branch (br : Branch α) :
    Tracks br.hooks fun s l => s = (l.filter br.takes).map br.handle where
  shutdown h := h
  release h := h
  dispatch := by
    rintro s l m a rfl
    rw [List.filter_append, List.map_append]
    by_cases htakes : br.takes (readMsg m a) = true
    · simp [Branch.hooks, htakes]
    · simp [Branch.hooks, htakes]

lemma Via.handled_frame {via : Via} (hf : f.Friendly) (hsize : f.length ≤ size)
    (htakes : br.takes f.strip = true) (hw : via.chunks.flatten = f.encode) {out : List α}
    (hout : via.handled br size = some out) : out = [br.handle f.strip] := by
  cases via with
  | temporary chunks block =>
      rw [Via.handled] at hout
      split_ifs at hout with hne
      have hne' : ∀ c ∈ chunks, c ≠ [] := fun c hc hnil =>
        hne (List.any_eq_true.mpr ⟨c, hc, by rw [hnil]; rfl⟩)
      obtain ⟨n, m, hrecv, hread⟩ := recvMsg_frame hf hsize Int.one_nonneg hne' hw block
      rw [hrecv] at hout
      rw [← IpcMsg.length_strip] at hread
      have hout' := Option.some.inj hout
      rw [readMsg_of_read hread, if_pos htakes] at hout'
      exact hout'.symm
  | connected chunks buf clone =>
      rw [Via.handled] at hout
      split_ifs at hout with hlegal
      obtain rfl := Option.some.inj hout
      set c : Conn (List α) := ⟨{ buf with size := size }, clone, []⟩ with hc
      have hok : ∀ s m a, (br.hooks.dispatch s m a).ok = true := by
        intro s m a
        simp only [Branch.hooks]
        split_ifs <;> rfl
      have hexit : ∀ r ∈ serve br.hooks chunks.length (chunks.map .bytes) c, r.exit ≠ .illegal := by
        intro r hr hill
        exact hlegal (List.any_eq_true.mpr ⟨r, hr, by simpa using hill⟩)
      have hS : 0 < size := lt_of_lt_of_le f.length_pos hsize
      obtain ⟨hlog, -⟩ := serve_frames br.hooks hok hS chunks.length chunks [f] c (le_refl _) rfl
        (by simpa using ⟨hf, hsize⟩) (by simpa [Via.chunks] using hw) hexit
      have htrack := (tracks_branch br).serve chunks.length (chunks.map .bytes) c (l := []) rfl
      have honly : ([f].map IpcMsg.strip).filter br.takes = [f.strip] :=
        List.filter_cons_of_pos htakes
      rw [hlog, List.nil_append, honly] at htrack
      -- the state does not depend on the buffer that stands for no call
      have hne : serve br.hooks chunks.length (chunks.map .bytes) c ≠ [] := by
        intro hnil
        rw [hnil] at hlog
        cases hlog
      obtain ⟨r, rs, hcalls⟩ := List.exists_cons_of_ne_nil hne
      rw [hcalls, lastConn_cons] at htrack ⊢
      exact htrack

end Ways

end LinuxC.Ipc
