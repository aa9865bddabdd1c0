import TradingLab.Market.Validator
import TradingLab.Oms.OrderManager.Atomicity
import TradingLab.Execution.Broker.Displayed
import TradingLab.Execution.Broker.Overfill
import TradingLab.Risk.Burst
import TradingLab.Engine.Completeness
import TradingLab.Engine.Causality
import TradingLab.Attribution.Closure
import TradingLab.Attribution.Additive
import TradingLab.Attribution.ExecutionQuality
import TradingLab.Live.LostFills
import TradingLab.Live.Restart
import TradingLab.Live.Tamper
import TradingLab.Live.Permission
import TradingLab.Live.Fills
import TradingLab.Live.Routing
import TradingLab.Live.Reconnect
import TradingLab.Algo.Finish
import TradingLab.Algo.Slices
import TradingLab.Algo.Caps
import TradingLab.Algo.VolumeProfile
import TradingLab.Signal.Cooldown
import TradingLab.Signal.Generator
import TradingLab.Pipeline.Flatten
import TradingLab.Pipeline.OnBar
import TradingLab.Pipeline.Statistics
import TradingLab.Validation.Leakage
import TradingLab.Storage.Lifecycle
import TradingLab.Features.Incremental
import TradingLab.Features.Naming
import TradingLab.Features.RelativeVolume
import TradingLab.Features.FeatureMatrix
import TradingLab.Features.Barrier
import TradingLab.Labels.Clipping
import TradingLab.Strategy.Review
import TradingLab.Experiment.Fingerprints
import TradingLab.Experiment.Fairness
import TradingLab.Ops.Probing
import TradingLab.Ops.Eviction
import TradingLab.Ops.Latency
import TradingLab.Ops.Supervisor
import TradingLab.Research.Evaluation
import TradingLab.Analytics.TradeAnalyzer
import TradingLab.Analytics.Reset
import TradingLab.Databento.Exact
import TradingLab.Databento.Live
import TradingLab.Live.Reconcile
import TradingLab.Research.Registration
import TradingLab.Databento.Client
import TradingLab.Market.Pagination
import TradingLab.Optimization.Estimator
import TradingLab.Optimization.Ascent
import TradingLab.Models.Integrity
import TradingLab.Config.Canonical
import TradingLab.Core.Rng
import TradingLab.Strategy.Version
import TradingLab.Paper.Broker
import TradingLab.Frontend.History
import TradingLab.Analytics.Rolling
import TradingLab.Models.Fitting
import TradingLab.Optimization.Gradient
