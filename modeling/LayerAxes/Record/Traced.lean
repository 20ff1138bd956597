import LayerAxes.Store.Source

/-!
# Answers with the queries behind them

One question about records may take several queries.  A traced answer keeps the
queries that were run for it, in their order, also when it is an error.
-/

namespace LayerAxes

structure Traced (α : Type) where
  queries : List Query
  answer : Answer α

namespace Traced

variable {α β : Type}

def ofAnswer (answer : Answer α) : Traced α :=
  ⟨[], answer⟩

def query (source : FeatureSource) (q : Query) : Traced (List Feature) :=
  ⟨[q], source.features q⟩

def andThen (x : Traced α) (f : α -> Traced β) : Traced β :=
  match x.answer with
  | .ok a => ⟨x.queries ++ (f a).queries, (f a).answer⟩
  | .error e => ⟨x.queries, .error e⟩

instance : Monad Traced where
  pure a := ofAnswer (.ok a)
  bind := andThen

@[simp]
theorem answer_ofAnswer (answer : Answer α) : (ofAnswer answer).answer = answer :=
  rfl

@[simp]
theorem answer_query (source : FeatureSource) (q : Query) :
    (query source q).answer = source.features q :=
  rfl

@[simp]
theorem answer_pure (a : α) : (pure a : Traced α).answer = .ok a :=
  rfl

@[simp]
theorem answer_bind (x : Traced α) (f : α -> Traced β) :
    (x >>= f).answer = x.answer >>= fun a => (f a).answer := by
  cases x with
  | mk queries answer => cases answer <;> rfl

end Traced
end LayerAxes
