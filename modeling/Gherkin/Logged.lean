import Gherkin.Event

/-
  Results together with the events of the work that led to them. The events stay when the work
  fails, so a failure shows how far it went.
-/

namespace Gherkin

/-- The events of some work, in order, and its result. -/
@[ext]
structure Logged (ε α : Type) where
  events : List Event
  result : Except ε α

namespace Logged

/-- Work without events. -/
def lift {ε α : Type} (x : Except ε α) : Logged ε α := ⟨[], x⟩

/-- Reports one event. -/
def report {ε : Type} (e : Event) : Logged ε Unit := ⟨[e], .ok ()⟩

/-- Goes on with a result; the events of both parts are kept. -/
def andThen {ε α β : Type} (m : Logged ε α) (f : α → Logged ε β) : Logged ε β :=
  match m with
  | ⟨es, .ok a⟩ => ⟨es ++ (f a).events, (f a).result⟩
  | ⟨es, .error e⟩ => ⟨es, .error e⟩

instance {ε : Type} : Monad (Logged ε) where
  pure a := ⟨[], .ok a⟩
  bind := andThen

/-- The same work with another form of its failure. -/
def mapError {ε δ α : Type} (f : ε → δ) (m : Logged ε α) : Logged δ α :=
  ⟨m.events, m.result.mapError f⟩

theorem result_bind {ε α β : Type} (m : Logged ε α) (f : α → Logged ε β) :
    (m >>= f).result = m.result >>= fun a => (f a).result := by
  obtain ⟨es, _ | a⟩ := m <;> rfl

theorem events_bind_ok {ε α β : Type} {m : Logged ε α} {a : α} (h : m.result = .ok a)
    (f : α → Logged ε β) : (m >>= f).events = m.events ++ (f a).events := by
  obtain ⟨es, r⟩ := m
  subst h
  rfl

theorem events_bind_error {ε α β : Type} {m : Logged ε α} {e : ε} (h : m.result = .error e)
    (f : α → Logged ε β) : (m >>= f).events = m.events := by
  obtain ⟨es, r⟩ := m
  subst h
  rfl

theorem events_bind_pure {ε α β : Type} (m : Logged ε α) (f : α → β) :
    (m >>= fun a => pure (f a)).events = m.events := by
  obtain ⟨es, _ | a⟩ := m
  · rfl
  · exact List.append_nil es

/-- Work without events that succeeds leaves no trace. -/
theorem lift_ok_bind {ε α β : Type} (a : α) (f : α → Logged ε β) :
    lift (.ok a) >>= f = f a := rfl

end Logged

end Gherkin
