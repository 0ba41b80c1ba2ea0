import MetricBoard.Config.Basic
import MetricBoard.Refresh.Activity

/-!
# The engine of a configuration
-/

namespace MetricBoard.Config

/-- How the batches of a configuration run. -/
def refreshOptions (c : Config) : RefreshOptions :=
  ⟨c.refresh.maxInFlight, c.refresh.relationalConcurrency, c.queryTimeoutMs, c.schema⟩

/-- The servers of a configuration. -/
def servers (c : Config) (environment : Environment) : PerTarget (Option ServerConfig) :=
  ⟨c.server? environment .relational, c.server? environment .fileDatabase⟩

/-- The engine of a configuration, for the servers that there are drivers for. -/
def engine (c : Config) (environment : Environment) (drivers : PerTarget Bool)
    (tables : Store.Tables) : Engine where
  router := { servers := c.servers environment, drivers := drivers }
  options := c.refreshOptions
  storage := { tables := tables }
  scheduler := { intervalMs := c.intervalMs, retentionDays := c.refresh.retentionDays }

end MetricBoard.Config
