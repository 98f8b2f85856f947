import Tmms.Connection

/-! What each output handler of the connection comes to under a contract, worked out once. The
branch of `SendInLoop` for a negative length is not among its cases. -/
namespace Tmms.Network.Connection

open Reentrant TcpConnection

variable {memory : Nat → UInt8} {E : Environment World Query Result Callback Method}
  {K : Contract World Query Callback Method} {ctx : List Callback} {goal : Unit → World → Prop} {s : World}

theorem wp_writeComplete :
    wp (system memory) E K ctx (TcpConnection.writeComplete host) goal s ↔
      (s.connection.write_complete_cb_ = true → K.inv (.writeComplete :: ctx) s ∧
        ∀ after, K.rely (.writeComplete :: ctx) s after → K.inv (.writeComplete :: ctx) after → goal () after) ∧
      (¬s.connection.write_complete_cb_ = true → goal () s) := by
  simp only [TcpConnection.writeComplete,host,wp_bind,wp_read,wp_pure,wp_ite,wp_invoke]
  rfl

theorem wp_sendRest (buf send_len size : Nat) :
    wp (system memory) E K ctx (TcpConnection.sendRest host buf send_len size) goal s ↔
      (size = 0 → wp (system memory) E K ctx (TcpConnection.writeComplete host) goal s) ∧
      (¬size = 0 → goal () (enableEventWriting true { s with connection := { s.connection with
        io_vec_li_ := s.connection.io_vec_li_ ++ [⟨addPtr buf send_len,size⟩] } })) := by
  simp only [TcpConnection.sendRest,host,update,wp_bind,wp_ite,wp_modify]

theorem wp_sendInLoop (buf size : Nat) :
    wp (system memory) E K ctx (TcpConnection.sendInLoop host buf size) goal s ↔
      (s.connection.closed_ = true → goal () s) ∧
      (¬s.connection.closed_ = true →
        (s.connection.io_vec_li_ = [] → K.asks ctx (.write s.connection.fd_ buf size) s ∧
          ∀ a, E.admits ctx s (.write s.connection.fd_ buf size) a = true →
            wp (system memory) E K ctx
              (TcpConnection.sendRest host buf (toSize a.ret) (subSize size (toSize a.ret))) goal
              (answered memory (.write s.connection.fd_ buf size) a s)) ∧
        (¬s.connection.io_vec_li_ = [] →
          wp (system memory) E K ctx (TcpConnection.sendRest host buf 0 size) goal s)) := by
  simp only [TcpConnection.sendInLoop,host,wp_bind,wp_read,wp_pure,wp_ite,wp_query,Nat.not_lt_zero,
    false_implies,not_false_eq_true,forall_const,true_and]
  rfl

theorem wp_sendListInLoop (list : List BufferNode) :
    wp (system memory) E K ctx (TcpConnection.sendListInLoop host list) goal s ↔
      (s.connection.closed_ = true → goal () s) ∧
      (¬s.connection.closed_ = true →
        let queued : World := { s with
          connection := { s.connection with io_vec_li_ := s.connection.io_vec_li_ ++ nodes list } }
        (queued.connection.io_vec_li_ ≠ [] → goal () (enableEventWriting true queued)) ∧
        (¬queued.connection.io_vec_li_ ≠ [] → goal () queued)) := by
  simp only [TcpConnection.sendListInLoop,host,update,wp_bind,wp_read,wp_pure,wp_ite,wp_modify]
  rfl

theorem wp_onWrite :
    wp (system memory) E K ctx (TcpConnection.onWrite host) goal s ↔
      (s.connection.closed_ = true → goal () s) ∧
      (¬s.connection.closed_ = true →
        (s.connection.io_vec_li_ ≠ [] →
          K.pre ctx .writeLoop s ∧ ∀ after, K.post ctx .writeLoop s after → goal () after) ∧
        (¬s.connection.io_vec_li_ ≠ [] →
          wp (system memory) E K ctx (TcpConnection.writeComplete host) goal (enableEventWriting false s))) := by
  simp only [TcpConnection.onWrite,host,wp_bind,wp_read,wp_pure,wp_ite,wp_run,wp_modify]

/-- What is left of the queue once `writev` has taken `a.ret` bytes of it. -/
theorem wp_writeLoop :
    wp (system memory) E K ctx (TcpConnection.writeLoop host) goal s ↔
      K.asks ctx (.writev s.connection.fd_ s.connection.io_vec_li_) s ∧
      ∀ a, E.admits ctx s (.writev s.connection.fd_ s.connection.io_vec_li_) a = true →
        let wrote := answered memory (.writev s.connection.fd_ s.connection.io_vec_li_) a s
        (a.ret ≥ 0 →
          (consume s.connection.io_vec_li_ a.ret.toNat = none → K.mayFault) ∧
          ∀ rest, consume s.connection.io_vec_li_ a.ret.toNat = some rest →
            let left : World := { wrote with connection := { s.connection with io_vec_li_ := rest } }
            (rest = [] →
              wp (system memory) E K ctx (TcpConnection.writeComplete host) goal (enableEventWriting false left)) ∧
            (¬rest = [] →
              K.pre ctx .writeLoop left ∧ ∀ after, K.post ctx .writeLoop left after → goal () after)) ∧
        (¬a.ret ≥ 0 →
          (fatal a.errno = true →
            K.pre ctx .onClose wrote ∧ ∀ after, K.post ctx .onClose wrote after → goal () after) ∧
          (¬fatal a.errno = true → goal () wrote)) := by
  simp only [TcpConnection.writeLoop,host,wp_bind,wp_read,wp_pure,wp_query,wp_ite,wp_run]
  refine and_congr_right' (forall_congr' fun a => imp_congr_right fun _ => and_congr_left' ?_)
  refine imp_congr_right fun _ => ?_
  cases consume s.connection.io_vec_li_ a.ret.toNat with
  | none => simp only [wp_fault,forall_const,reduceCtorEq,false_implies,and_true]
  | some rest =>
    simp only [update,wp_bind,wp_modify,wp_ite,wp_run,reduceCtorEq,false_implies,true_and,Option.some.injEq,
      forall_eq']
    rfl

end Tmms.Network.Connection
