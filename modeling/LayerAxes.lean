import LayerAxes.Main
import LayerAxes.Proofs.Record.Publication
import LayerAxes.Proofs.Dimension.Interval
import LayerAxes.Proofs.Dimension.Kinds
import LayerAxes.Proofs.Domain.Fallback
import LayerAxes.Proofs.Dimension.Filtering
import LayerAxes.Proofs.Histogram.Temporal
import LayerAxes.Proofs.Dimension.Variants
import LayerAxes.Proofs.Record.Protocol
import LayerAxes.Proofs.Domain.Codec
import LayerAxes.Proofs.Histogram.Refusal
import LayerAxes.Proofs.Order.Distinct
import LayerAxes.Proofs.Record.Paging
import LayerAxes.Proofs.Document.Layer
import LayerAxes.Proofs.Record.Columns
import LayerAxes.Proofs.Record.Links
import LayerAxes.Proofs.Inspection.Names
import LayerAxes.Proofs.Default.Extremes
import LayerAxes.Proofs.Default.Fixed
import LayerAxes.Proofs.Default.Reference
import LayerAxes.Proofs.Dimension.Tokens
import LayerAxes.Proofs.Feature.Comparison
import LayerAxes.Proofs.Feature.Conjunction
import LayerAxes.Proofs.Feature.Wildcard
import LayerAxes.Proofs.Time.Counter
import LayerAxes.Proofs.Histogram.MonthSteps
import LayerAxes.Proofs.LayerFile.Template
import LayerAxes.Proofs.Envelope.Union
import LayerAxes.Proofs.Dimension.Region
import LayerAxes.Proofs.Dimension.Columns
import LayerAxes.Proofs.Order.Bounds
import LayerAxes.Proofs.Store.Agreement
import LayerAxes.Proofs.Time.Landing
import LayerAxes.Proofs.Time.Reading
