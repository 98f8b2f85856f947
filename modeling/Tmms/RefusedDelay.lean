import Tmms.TimerSlots

/-! A delay beyond thirty days. `InsertEntry` logs an error and returns, and the pointer it was
given was the only one: so the entry is destroyed at once, which is when it acts. The entry of a
periodic timer then sets the timer again, with the delay it has just been refused. -/
namespace Tmms.Network.Timers

open Reentrant TimingWheel

inductive Requests (s : World) (d : Nat) : Method → EntryPtr → Prop where
  | runAfter (cb : Nat) : Requests s d (.runAfter d cb) (.after s.made cb)
  | runEvery (cb : Nat) : Requests s d (.runEvery d cb) (.every s.made d cb)
  | insertEntry (id : Nat) (own : s.owned (.object id) = false) :
    Requests s d (.insertEntry d (.object id)) (.object id)

/-- The call comes back, the wheels are as they were, and `e` was not run on the way. -/
def Refuses (delays : Nat → Bool) (c : Config World Query Answer Callback Method) (m : Method) (e : EntryPtr) :
    Prop :=
  ∃ moves after, system.exec (environment delays) moves (system.started c m c.stack) = some ⟨after,c.stack⟩ ∧
    after.wheel.Wheels_ = c.state.wheel.Wheels_ ∧
    ∀ first second s more, moves = first ++ second →
      system.exec (environment delays) first (system.started c m c.stack) ≠
        some ⟨s,.user (.action e) :: (more ++ c.stack)⟩

section Refused
variable {delays : Nat → Bool} {s : World} {d : Nat} {e : EntryPtr}

/-- The number of an entry just made is in no slot. -/
theorem not_owned_fresh (valid : Valid delays [] s) (plain : e.isCascade = false)
    (number : serial e = some s.made) : s.owned e = false := by
  have unused : ∀ i ∈ s.insertions, i.what.holds e = false := by
    intro i among
    rw [← Bool.not_eq_true]
    intro holds
    have same := Insertion.holds_of_what (valid.logged.plain i among) plain holds
    rw [← same] at number
    exact Nat.lt_irrefl _ (valid.made.numbered i among _ number)
  rw [not_owned_iff]
  constructor
  · intro type k x has
    obtain ⟨i,among,_,_,_,rfl⟩ := (valid.rings.has_iff type k x).mp has
    exact unused i among
  · intro x inside
    obtain ⟨i,among,_,_,_,rfl⟩ := valid.pending.out_log x (Or.inl inside)
    exact unused i among

/-- What the destructor does first is to call back. -/
def acts : EntryPtr → Bool
  | .object _ | .after _ _ | .every _ _ _ => true
  | .timeout _ _ | .cascade _ _ _ => false

/-- `InsertEntry` lets go of the entry as it is. -/
theorem insertEntry_drops (rest : List (Frame World Query Answer Callback Method)) (beyond : refused d) :
    system.exec (environment delays) (List.replicate 4 .advance) ⟨s,.code (insertEntry d e) :: rest⟩ =
      some ⟨{ s with made := s.made + 1 },.code (drop e) :: .code (.done ()) :: rest⟩ := by
  have refusal : s.wheel.insertEntry s.made d e = some s.wheel := insertEntry_refused s.made d beyond
  simp only [List.replicate,System.exec,System.step,insertEntry,bind,Prog.bind,Prog.read,refusal,Option.bind_some]
  rfl

theorem drop_destroys (rest : List (Frame World Query Answer Callback Method)) (own : s.owned e = false) :
    system.exec (environment delays) (List.replicate 2 .advance) ⟨s,.code (drop e) :: rest⟩ =
      some ⟨began (.destroy e) s,.code (destroy e) :: .code (.done ()) :: rest⟩ := by
  simp only [List.replicate,System.exec,System.step,drop,bind,Prog.bind,Prog.read,own,Option.bind_some]
  rfl

theorem destroy_acts (rest : List (Frame World Query Answer Callback Method)) (acting : acts e = true) :
    ∃ next, system.exec (environment delays) (List.replicate 1 .advance) ⟨s,.code (destroy e) :: rest⟩ =
      some ⟨invoked (.action e) s,.user (.action e) :: .code next :: rest⟩ := by
  cases e with
  | object id => exact ⟨_,rfl⟩
  | after id cb => exact ⟨_,rfl⟩
  | every id interval cb => exact ⟨_,rfl⟩
  | timeout id conn => cases acting
  | cascade id second entry => cases acting

theorem began_destroy_wheel (e : EntryPtr) (s : World) : (began (.destroy e) s).wheel = s.wheel := by
  cases e <;> rfl

theorem insertEntry_acts (rest : List (Frame World Query Answer Callback Method)) (beyond : refused d)
    (own : s.owned e = false) (acting : acts e = true) :
    ∃ more after, system.exec (environment delays) (List.replicate 7 .advance) ⟨s,.code (insertEntry d e) :: rest⟩ =
      some ⟨after,.user (.action e) :: (more ++ rest)⟩ ∧ after.wheel = s.wheel := by
  let made : World := { s with made := s.made + 1 }
  have free : made.owned e = false := own
  obtain ⟨next,acted⟩ := @destroy_acts delays (began (.destroy e) made) e
    (.code (.done ()) :: .code (.done ()) :: rest) acting
  refine ⟨[.code next,.code (.done ()),.code (.done ())],invoked (.action e) (began (.destroy e) made),?_,
    began_destroy_wheel e made⟩
  rw [show (7 : Nat) = 4 + (2 + 1) from rfl,List.replicate_add,List.replicate_add,System.exec_append,
    insertEntry_drops rest beyond,Option.bind_some,System.exec_append,drop_destroys _ free,Option.bind_some]
  exact acted

/-- A refused request comes to its callback by itself, with the wheels as they were. -/
theorem request_acts {c : Config World Query Answer Callback Method} {m : Method} (valid : Valid delays [] c.state)
    (requests : Requests c.state d m e) (beyond : refused d) :
    ∃ n more after, system.exec (environment delays) (List.replicate n .advance) (system.started c m c.stack) =
      some ⟨after,.user (.action e) :: (more ++ c.stack)⟩ ∧ after.wheel = c.state.wheel := by
  have fresh : ∀ m e, serial e = some c.state.made → e.isCascade = false → acts e = true →
      system.exec (environment delays) (List.replicate 4 .advance) (system.started c m c.stack) =
        some ⟨began (.insertEntry d e) { c.state with made := c.state.made + 1 },
          .code (insertEntry d e) :: .code (.done ()) :: c.stack⟩ →
      ∃ n more after, system.exec (environment delays) (List.replicate n .advance) (system.started c m c.stack) =
        some ⟨after,.user (.action e) :: (more ++ c.stack)⟩ ∧ after.wheel = c.state.wheel := by
    intro m e number plain acting inserts
    have own : c.state.owned e = false := not_owned_fresh valid plain number
    obtain ⟨more,after,acted,wheel⟩ := @insertEntry_acts delays
      (began (.insertEntry d e) { c.state with made := c.state.made + 1 }) d e (.code (.done ()) :: c.stack)
      beyond own acting
    refine ⟨4 + 7,more ++ [.code (.done ())],after,?_,wheel⟩
    rw [List.replicate_add,System.exec_append,inserts,List.append_assoc]
    exact acted
  cases requests with
  | runAfter cb => exact fresh _ _ rfl rfl rfl rfl
  | runEvery cb => exact fresh _ _ rfl rfl rfl rfl
  | insertEntry id own =>
    obtain ⟨more,after,acted,wheel⟩ := @insertEntry_acts delays
      (began (.insertEntry d (.object id)) c.state) d (.object id) c.stack beyond own rfl
    exact ⟨7,more,after,acted,wheel⟩

/-- What runs by itself into a callback does not come back without it. -/
theorem not_refuses {c : Config World Query Answer Callback Method} {m : Method} (controlled : c.controlled)
    {n : Nat} {more : List (Frame World Query Answer Callback Method)} {after : World}
    (acted : system.exec (environment delays) (List.replicate n .advance) (system.started c m c.stack) =
      some ⟨after,.user (.action e) :: (more ++ c.stack)⟩) : ¬Refuses delays c m e := by
  rintro ⟨moves,last,returned,_,silent⟩
  rcases system.exec_forced _ n moves _ _ _ acted returned with ⟨rest,same⟩ | ⟨next,goes⟩
  · exact silent _ rest after more same acted
  · have back : (⟨last,c.stack⟩ : Config World Query Answer Callback Method).controlled := controlled
    rw [system.controlled_stays _ back] at goes
    cases goes

def everyContract : Contract World Query Callback Method where
  inv := fun _ _ => True
  rely := fun _ _ _ => True
  pre := fun _ _ _ => True
  post := fun _ m s _ =>
    match m with
    | .runEvery d _ => ¬refused d
    | .insertEntry d (.every id interval cb) =>
      s.owned (.every id interval cb) = false → interval = d → ¬refused d
    | .drop (.every id interval cb) => s.owned (.every id interval cb) = false → ¬refused interval
    | .destroy (.every _ interval _) => ¬refused interval
    | _ => True
  asks := fun _ _ _ => True
  mayFault := True

theorem every_vacuous (ctx : List Callback) (p : Code Unit) {goal : Unit → World → Prop}
    (ends : ∀ value after, goal value after) : wp system (environment delays) everyContract ctx p goal s :=
  wp_vacuous (fun _ _ => trivial) (fun _ _ => trivial) (fun _ _ => trivial) trivial p s ends

theorem runEvery_every (ctx : List Callback) (d cb : Nat) (valid : Valid delays [] s) :
    wp system (environment delays) everyContract ctx (runEvery d cb) (fun _ _ => ¬refused d) s := by
  simp only [runEvery,wp_bind,wp_read,wp_modify,wp_run]
  refine ⟨trivial,fun after done => ?_⟩
  have own : s.owned (.every s.made d cb) = false := not_owned_fresh valid rfl rfl
  exact done own rfl

theorem insertEntry_every (ctx : List Callback) (id d cb : Nat) (own : s.owned (.every id d cb) = false) :
    wp system (environment delays) everyContract ctx (insertEntry d (.every id d cb)) (fun _ _ => ¬refused d) s := by
  by_cases beyond : refused d
  · have refusal : s.wheel.insertEntry s.made d (.every id d cb) = some s.wheel := insertEntry_refused s.made d beyond
    simp only [insertEntry,wp_bind,wp_read,refusal,wp_modify,wp_run]
    exact ⟨trivial,fun after done => done own⟩
  · exact every_vacuous ctx _ fun _ _ => beyond

theorem drop_every (ctx : List Callback) (id interval cb : Nat) (own : s.owned (.every id interval cb) = false) :
    wp system (environment delays) everyContract ctx (drop (.every id interval cb))
      (fun _ _ => ¬refused interval) s := by
  simp only [drop,wp_bind,wp_read,own]
  exact ⟨trivial,fun after done => done⟩

theorem destroy_every (ctx : List Callback) (id interval cb : Nat) :
    wp system (environment delays) everyContract ctx (destroy (.every id interval cb))
      (fun _ _ => ¬refused interval) s := by
  simp only [destroy,wp_bind,wp_invoke,wp_run]
  exact ⟨trivial,fun after _ _ => ⟨trivial,fun after done => done⟩⟩

theorem every_refines : everyContract.Refines (contract delays) system (environment delays) where
  rely_refl := fun _ _ => trivial
  rely_trans := fun _ _ _ _ _ _ => trivial
  body := by
    intro ctx m s before _
    cases m with
    | runEvery d cb => exact runEvery_every ctx d cb before.1
    | insertEntry d e =>
      cases e with
      | every id interval cb =>
        by_cases own : s.owned (.every id interval cb) = false ∧ interval = d
        · obtain ⟨own,rfl⟩ := own
          have own : (began (.insertEntry interval (.every id interval cb)) s).owned (.every id interval cb) = false := own
          exact wp_mono (insertEntry_every ctx id interval cb own) fun _ _ done _ _ => done
        · exact every_vacuous ctx _ fun _ _ free same => absurd ⟨free,same⟩ own
      | _ => exact every_vacuous ctx _ fun _ _ => trivial
    | drop e =>
      cases e with
      | every id interval cb =>
        by_cases own : s.owned (.every id interval cb) = false
        · have own : (began (.drop (.every id interval cb)) s).owned (.every id interval cb) = false := own
          exact wp_mono (drop_every ctx id interval cb own) fun _ _ done _ => done
        · exact every_vacuous ctx _ fun _ _ free => absurd free own
      | _ => exact every_vacuous ctx _ fun _ _ => trivial
    | destroy e =>
      cases e with
      | every id interval cb => exact destroy_every ctx id interval cb
      | _ => exact every_vacuous ctx _ fun _ _ => trivial
    | _ => exact every_vacuous ctx _ fun _ _ => trivial
  enter := fun _ _ _ _ _ _ => trivial
  leave := fun _ _ _ _ _ _ _ => ⟨trivial,trivial⟩

/-- A periodic timer that is refused keeps setting itself again. -/
theorem refused_every_stays {c : Config World Query Answer Callback Method} {cb : Nat} (fresh : Fresh s)
    (reached : system.Reachable (environment delays) s c) (controlled : c.controlled) (beyond : refused d)
    (allowed : (environment delays).enters (active c.stack) c.state (.runEvery d cb) = true)
    (moves : List (Move World Query Answer Callback Method)) (after : World) :
    system.exec (environment delays) moves (system.started c (.runEvery d cb) c.stack) ≠ some ⟨after,c.stack⟩ := by
  intro returned
  have sound := (timers_sound delays).both every_refines
  obtain ⟨_,_,_,_,_,done⟩ := reachable_returns sound s c ⟨fresh_valid delays s fresh,trivial⟩ reached
    (Or.inl ⟨controlled,allowed,rfl⟩) moves after returned
  exact done.2 beyond

end Refused

/-- No request for more than thirty days is refused quietly. Its callback is run before it comes
back, with the wheels as they were; and `RunEvery` does not come back. -/
theorem refused_delay_acts (delays : Nat → Bool) (s : World) (c : Config World Query Answer Callback Method)
    (fresh : Fresh s) (reached : system.Reachable (environment delays) s c) (controlled : c.controlled)
    (d : Nat) (m : Method) (e : EntryPtr) (beyond : refused d) (requests : Requests c.state d m e)
    (allowed : (environment delays).enters (active c.stack) c.state m = true) :
    ¬Refuses delays c m e ∧
    (∃ n more after, system.exec (environment delays) (List.replicate n .advance) (system.started c m c.stack) =
      some ⟨after,.user (.action e) :: (more ++ c.stack)⟩ ∧ after.wheel = c.state.wheel) ∧
    ∀ cb, m = .runEvery d cb → ∀ moves after,
      system.exec (environment delays) moves (system.started c m c.stack) ≠ some ⟨after,c.stack⟩ := by
  have valid := (timers_invariant delays s c fresh reached controlled).1
  obtain ⟨n,more,after,acted,wheel⟩ := @request_acts delays d e c m valid requests beyond
  refine ⟨not_refuses controlled acted,⟨n,more,after,acted,wheel⟩,?_⟩
  rintro cb rfl
  exact refused_every_stays fresh reached controlled beyond allowed

/-- Thirty-one days, asked for of a loop that has just been made. -/
theorem refused_delay_acts_month :
    ¬Refuses anyDelay ⟨start,[]⟩ (.runEvery 2678400 7) (.every 0 2678400 7) ∧
    (∃ n more after, system.exec (environment anyDelay) (List.replicate n .advance)
      (system.started ⟨start,[]⟩ (.runEvery 2678400 7) []) =
        some ⟨after,.user (.action (.every 0 2678400 7)) :: (more ++ [])⟩ ∧ after.wheel = start.wheel) ∧
    ∀ cb, Method.runEvery 2678400 7 = .runEvery 2678400 cb → ∀ moves after,
      system.exec (environment anyDelay) moves (system.started ⟨start,[]⟩ (.runEvery 2678400 7) []) ≠
        some ⟨after,[]⟩ :=
  refused_delay_acts anyDelay start ⟨start,[]⟩ start_fresh ⟨[],rfl⟩ trivial 2678400 _ _
    (by decide : 30 < 2678400 / kTimingDay) (.runEvery 7) (by decide)

/-- `RunAfter` of thirty-one days runs its callback at once, and `RunEvery` does not come back. -/
theorem refused_month :
    (∃ n more after, system.exec (environment anyDelay) (List.replicate n .advance)
      (system.started ⟨start,[]⟩ (.runAfter 2678400 7) []) =
        some ⟨after,.user (.action (.after 0 7)) :: more⟩) ∧
    ¬Refuses anyDelay ⟨start,[]⟩ (.runAfter 2678400 7) (.after 0 7) ∧
    ∀ moves after, system.exec (environment anyDelay) moves
      (system.started ⟨start,[]⟩ (.runEvery 2678400 7) []) ≠ some ⟨after,[]⟩ := by
  have beyond : refused 2678400 := (by decide : 30 < 2678400 / kTimingDay)
  have outside : (⟨start,[]⟩ : Config World Query Answer Callback Method).controlled := trivial
  obtain ⟨n,more,after,acted,_⟩ := @request_acts anyDelay 2678400 _ ⟨start,[]⟩ _
    (fresh_valid anyDelay start start_fresh).1 (.runAfter 7) beyond
  refine ⟨⟨n,more ++ [],after,acted⟩,not_refuses outside acted,?_⟩
  exact refused_every_stays start_fresh ⟨[],rfl⟩ outside beyond (by decide)

end Tmms.Network.Timers
