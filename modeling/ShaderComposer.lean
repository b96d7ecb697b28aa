import ShaderComposer.Material.Frame
import ShaderComposer.Proofs.Composition.Insertion
import ShaderComposer.Proofs.Composition.Locals
import ShaderComposer.Proofs.Composition.Reordering
import ShaderComposer.Proofs.Composition.SharedVariables
import ShaderComposer.Proofs.Effect.Tiles
import ShaderComposer.Proofs.Glsl.Conditions
import ShaderComposer.Proofs.Glsl.FloatConstants
import ShaderComposer.Proofs.Glsl.Outlines
import ShaderComposer.Proofs.Glsl.Reading
import ShaderComposer.Proofs.Glsl.TypingRules
import ShaderComposer.Proofs.Graphics.LastWrites
import ShaderComposer.Proofs.Material.Accounting
import ShaderComposer.Proofs.Material.DefiniteAssignment
import ShaderComposer.Proofs.Material.Determinacy
import ShaderComposer.Proofs.Material.Failures
import ShaderComposer.Proofs.Material.FrameCalls
import ShaderComposer.Proofs.Material.HandleTables
import ShaderComposer.Proofs.Material.Redrawing
import ShaderComposer.Proofs.Material.StaleWarnings
import ShaderComposer.Proofs.Material.Staleness
import ShaderComposer.Proofs.Material.StrictTypes
import ShaderComposer.Proofs.Material.TextureBindings
import ShaderComposer.Proofs.Material.Varyings
import ShaderComposer.Proofs.Material.WrittenUniforms
import ShaderComposer.Proofs.Numeric.ShortestDecimals
import ShaderComposer.Proofs.Script.Blocks
import ShaderComposer.Proofs.Script.Checking
import ShaderComposer.Proofs.Script.KnownTypes
import ShaderComposer.Proofs.Source.FirstClaims
import ShaderComposer.Proofs.Source.Mentions
import ShaderComposer.Proofs.Source.ReadBack
import ShaderComposer.Proofs.Source.Redeclaration
