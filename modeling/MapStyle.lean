import MapStyle.StyledMap.Compile
import MapStyle.Proofs.Filter.Feature
import MapStyle.Proofs.Filter.Slot
import MapStyle.Proofs.Cascade.Arena
import MapStyle.Proofs.Cascade.Features
import MapStyle.Proofs.Cascade.Growth
import MapStyle.Proofs.Cascade.Unfiltered
import MapStyle.Proofs.FeatureStyle.Drawing
import MapStyle.Proofs.FeatureStyle.Inherited
import MapStyle.Proofs.FeatureStyle.Layer
import MapStyle.Proofs.FeatureStyle.Sequence
import MapStyle.Proofs.FeatureStyle.Unknown
import MapStyle.Proofs.Filter.Conjunction
import MapStyle.Proofs.Selector.Meaning
import MapStyle.Proofs.Selector.Nesting
import MapStyle.Proofs.StyledMap.Schedule
import MapStyle.Proofs.Cascade.Part
import MapStyle.Proofs.Cascade.Separation
import MapStyle.Proofs.FeatureStyle.Modes
import MapStyle.Proofs.Renumbering.Filters
import MapStyle.Proofs.Renumbering.Flattening
import MapStyle.Proofs.Renumbering.Cascade
import MapStyle.Proofs.Renumbering.Rules
import MapStyle.Proofs.Renumbering.Layer
import MapStyle.Proofs.Renumbering.Sources
import MapStyle.Proofs.StyledMap.Failing
import MapStyle.Proofs.Filter.Satisfaction
import MapStyle.Proofs.Filter.Canonical
import MapStyle.Proofs.Filter.Idempotence
import MapStyle.Proofs.Filter.Readding
import MapStyle.Proofs.Value.Substitution
import MapStyle.Proofs.Filter.Strangers
import MapStyle.Proofs.Renderer.Equality
import MapStyle.Proofs.FeatureStyle.Blocks
import MapStyle.Proofs.Value.Grouping
import MapStyle.Proofs.Sheet.Layout
import MapStyle.Proofs.Sheet.LineComment
import MapStyle.Proofs.Sheet.Lines
import MapStyle.Proofs.Renderer.Arrangement
import MapStyle.Proofs.Symbolizer.Outlines
import MapStyle.Proofs.Renderer.ImageFilters
import MapStyle.Proofs.Renderer.Literal
import MapStyle.Proofs.Workers.Mapping
import MapStyle.Proofs.Project.Forest
import MapStyle.Proofs.FontSet.Callers
import MapStyle.Proofs.FontSet.Faces
import MapStyle.Proofs.Cascade.Discipline
import MapStyle.Proofs.FeatureStyle.Cutting
