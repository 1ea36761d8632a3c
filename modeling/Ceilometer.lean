import Ceilometer.Python
import Ceilometer.Dispatcher.Definition
import Ceilometer.Dispatcher.DefinitionFile
import Ceilometer.Dispatcher.Grouping
import Ceilometer.Dispatcher.Gnocchi
import Ceilometer.Agent.Manager
import Ceilometer.Compute.Pollsters
import Ceilometer.Compute.PollsterIsolation
import Ceilometer.Compute.Discovery
import Ceilometer.Dispatcher.Store
import Ceilometer.Dispatcher.Batch
import Ceilometer.Dispatcher.Effects
import Ceilometer.Dispatcher.Delivery
import Ceilometer.Dispatcher.CacheRefinement
import Ceilometer.Dispatcher.Backend
import Ceilometer.Dispatcher.Reconcile
import Ceilometer.Dispatcher.ProjectId
import Ceilometer.Dispatcher.Liveness
import Ceilometer.Dispatcher.EnsureRace
