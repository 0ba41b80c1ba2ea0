import MetricBoard.Refresh.Metric

/-!
# Running a batch

The task that runs a batch checks it, starts a task for each metric, waits for all of them and keeps
the report. A batch that is not one is refused before anything else happens. A batch of the whole
catalog (`CatalogRun`) takes its definitions from the storage.
-/

namespace MetricBoard

/-- The stages of running a batch. -/
inductive BatchRun where
  | start (definitions : List Definition) (token : Token)
  /-- Waiting for the metrics. -/
  | joining (b : Nat)
  | reporting (r : Report)
  deriving DecidableEq, Repr

/-- The step that the task of a batch can take. -/
def BatchRun.step (out : Outside) (e : Engine) :
    BatchRun → Option (EngineStep BatchRun (Ended Report))
  | start ds token =>
    match Batch.validate ds with
    | .error fault => some ⟨e, .done (.error fault), []⟩
    | .ok () =>
      match Admission.ofOptions? e.options with
      | none => some ⟨e, .done .brokeDown, []⟩
      | some admission =>
        let b := e.batches.length
        some ⟨{ e with batches := e.batches ++ [.start ds token out.now admission] },
          .stage (joining b), (List.range ds.length).map (Spawn.metric b)⟩
  | joining b =>
    match e.batches[b]? with
    | some batch =>
      if batch.unfinished = 0 then
        some ⟨e, .stage (reporting (batch.report out.freshId out.now)), []⟩
      else none
    | none => some ⟨e, .done .brokeDown, []⟩
  | reporting r =>
    match e.storage.keep out.refusals r with
    | (_, storage) => some ⟨{ e with storage := storage }, .done (.value r), []⟩

/-- The stages of running a batch of the whole catalog. -/
inductive CatalogRun where
  | loading (token : Token)
  | running (r : BatchRun)
  deriving DecidableEq, Repr

/-- The step that the task of a batch of the whole catalog can take. -/
def CatalogRun.step (out : Outside) (e : Engine) :
    CatalogRun → Option (EngineStep CatalogRun (Ended Report))
  | loading token =>
    match e.storage.load out.refusals with
    | (.ok ds, storage) =>
      some ⟨{ e with storage := storage }, .stage (running (.start ds token)), []⟩
    | (.error fault, storage) => some ⟨{ e with storage := storage }, .done (.error fault), []⟩
  | running r => (r.step out e).map <| EngineStep.within running Next.done

end MetricBoard
