import GalaxyMarket.Commodity.Columns
import GalaxyMarket.Market.Roll
import GalaxyMarket.Galaxy.Shape
import GalaxyMarket.Galaxy.Relations
import GalaxyMarket.Main
import GalaxyMarket.Proofs.Linear.Sparse
import GalaxyMarket.Proofs.Galaxy.Diplomacy
import GalaxyMarket.Proofs.Market.Numbering
import GalaxyMarket.Proofs.Market.Routes
import GalaxyMarket.Proofs.Market.Network
import GalaxyMarket.Proofs.Exact
import GalaxyMarket.Proofs.Market.Laplacian
import GalaxyMarket.Proofs.Linear.Cholesky.Factor
import GalaxyMarket.Proofs.Linear.Dense
import GalaxyMarket.Proofs.Linear.Resistors
import GalaxyMarket.Proofs.Linear.Cholesky.Start
import GalaxyMarket.Proofs.Linear.Cholesky.Solve
import GalaxyMarket.Proofs.Linear.ConjugateGradient
import GalaxyMarket.Proofs.Linear.Solver
import GalaxyMarket.Proofs.Market.Energy
import GalaxyMarket.Proofs.Market.Run
import GalaxyMarket.Proofs.Market.Solves
import GalaxyMarket.Proofs.Market.Potentials
import GalaxyMarket.Proofs.Market.Config
import GalaxyMarket.Proofs.Market.Interchange
import GalaxyMarket.Proofs.Market.Lifecycle
import GalaxyMarket.Proofs.Market.Update
import GalaxyMarket.Proofs.Market.PriceRange
import GalaxyMarket.Proofs.Market.TrackerRange
import GalaxyMarket.Proofs.Market.Trackers
import GalaxyMarket.Proofs.Market.Response
import GalaxyMarket.Proofs.Market.Standstill
import GalaxyMarket.Proofs.Galaxy.Keys
import GalaxyMarket.Proofs.Market.Independence
import GalaxyMarket.Proofs.Market.Rows
import GalaxyMarket.Proofs.Market.Batching
import GalaxyMarket.Proofs.Galaxy.Integrity
import GalaxyMarket.Proofs.Galaxy.Register
import GalaxyMarket.Proofs.Market.Rescaling
import GalaxyMarket.Proofs.Market.RescalingLaws
import GalaxyMarket.Proofs.Market.Ground
import GalaxyMarket.Proofs.Market.Embedding
import GalaxyMarket.Proofs.Market.Locality
import GalaxyMarket.Proofs.Linear.Renumbering
import GalaxyMarket.Proofs.Market.Isomorphism
import GalaxyMarket.Proofs.Market.Relabelling
import GalaxyMarket.Proofs.Galaxy.Listing
import GalaxyMarket.Proofs.Data.Decides
import GalaxyMarket.Proofs.Data.Names
import GalaxyMarket.Proofs.Market.NewRoute
import GalaxyMarket.Proofs.Data.Draft
import GalaxyMarket.Proofs.Data.Passes
import GalaxyMarket.Proofs.Data.Acceptance
import GalaxyMarket.Proofs.Data.Fidelity
import GalaxyMarket.Proofs.Market.Readiness
import GalaxyMarket.Proofs.Market.Destruction
import GalaxyMarket.Proofs.Market.Clock
import GalaxyMarket.Proofs.Market.Reconciliation
import GalaxyMarket.Proofs.Market.Synchronisation
import GalaxyMarket.Proofs.Linear.Answers
import GalaxyMarket.Proofs.Linear.InPlace
import GalaxyMarket.Proofs.Market.PriceOrder
import GalaxyMarket.Proofs.Market.Sampling
import GalaxyMarket.Proofs.Galaxy.Removal
import GalaxyMarket.Proofs.Galaxy.InPlace
import GalaxyMarket.Galaxy.InPlace
import GalaxyMarket.Proofs.Market.Containment
import GalaxyMarket.Proofs.Commodity.Columns
import GalaxyMarket.Proofs.Text.ByteOrder
import GalaxyMarket.Proofs.Commodity.Ranking
import GalaxyMarket.Proofs.Random
import GalaxyMarket.Proofs.Number.DecimalText
import GalaxyMarket.Proofs.Credits
import GalaxyMarket.Proofs.Linear.Assembly
import GalaxyMarket.Proofs.Market.Conductances
import GalaxyMarket.Proofs.Market.Summary
import GalaxyMarket.Proofs.Commodity.Jitter
import GalaxyMarket.Proofs.Market.Index
