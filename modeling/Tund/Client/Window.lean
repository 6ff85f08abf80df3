import Tund.AtMostOnce

/-!
# What reaches the client's window

The handshake and `client_handle_server_packet` show the window the same thing: the number
of every datagram that comes from the server's address, unlocks and has a complete header.
`windowAfter` is the window after one such datagram.
-/

namespace Tund

/-- The datagram from the server, if the arrival is one. -/
def Arrival.fromServer (serverAddr : SockAddr) : Arrival → List Bytes
  | .datagram wire src => if netAddrEqual src serverAddr then [wire] else []
  | _ => []

theorem clientRegisterReply_window (cli : Client) (buf : Bytes) :
    (clientRegisterReply cli buf).2.serverReplay =
      match readFrame buf with
      | none => cli.serverReplay
      | some f => (protoReplayAccept cli.serverReplay f.sequence).2 := by
  unfold clientRegisterReply
  cases readFrame buf with
  | none => rfl
  | some f =>
    simp only
    rcases protoReplayAccept cli.serverReplay f.sequence with ⟨_ | _, replay⟩
    · rfl
    · simp only
      split_ifs
      · exact handleAssign_replay _ _
      · rfl

theorem clientHandleServerPacket_window (env : Env) (cli : Client) (io : Proc) (buf : Bytes) :
    (clientHandleServerPacket env cli io buf).1.serverReplay =
      match readFrame buf with
      | none => cli.serverReplay
      | some f => (protoReplayAccept cli.serverReplay f.sequence).2 := by
  unfold clientHandleServerPacket
  cases readFrame buf with
  | none => rfl
  | some f =>
    simp only
    rcases protoReplayAccept cli.serverReplay f.sequence with ⟨_ | _, replay⟩
    · rfl
    · simp only
      rw [(clientDispatch_keeps _ _ _ _).serverReplay, (clientMarkServerSeen_keeps _ _).serverReplay]

/-- The window after a datagram that is read. -/
def windowAfter (aead : Aead) (key : Bytes) (w : ReplayWindow) (wire : Bytes) : ReplayWindow :=
  match (netRecv aead key wire).bind readFrame with
  | none => w
  | some f => (protoReplayAccept w f.sequence).2

theorem clientAwait_window (env : Env) (cli : Client) (arrival : Arrival) :
    (clientAwait env cli arrival).2.serverReplay =
      (arrival.fromServer cli.serverAddr).foldl (windowAfter env.aead env.key) cli.serverReplay := by
  cases arrival with
  | datagram wire src =>
    simp only [clientAwait, Arrival.fromServer]
    have hreply := clientRegisterReply_window cli
    cases hrecv : netRecv env.aead env.key wire with
    | none =>
      split_ifs <;> simp [windowAfter, hrecv]
    | some buf =>
      simp only
      split_ifs with haddr
      · have hwin : windowAfter env.aead env.key cli.serverReplay wire =
            (clientRegisterReply cli buf).2.serverReplay := by
          rw [hreply, windowAfter, hrecv]
          rfl
        rw [List.foldl_cons, List.foldl_nil, hwin]
        rcases clientRegisterReply cli buf with ⟨_ | _, cli'⟩ <;> rfl
      · rfl
  | _ => rfl

theorem clientReceive_window (env : Env) (cli : Client) (io : Proc) (wire : Bytes)
    (src : SockAddr) :
    (clientReceive env cli io wire src).1.serverReplay =
      ((Arrival.datagram wire src).fromServer cli.serverAddr).foldl (windowAfter env.aead env.key)
        cli.serverReplay := by
  simp only [clientReceive, Arrival.fromServer]
  cases hrecv : netRecv env.aead env.key wire with
  | none => split_ifs <;> simp [windowAfter, hrecv]
  | some buf =>
    simp only
    split_ifs with haddr
    · rw [clientHandleServerPacket_window, List.foldl_cons, List.foldl_nil, windowAfter, hrecv]
      rfl
    · rfl

end Tund
