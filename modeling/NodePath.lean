import NodePath.Cli.Run
import NodePath.Context.Shown
import NodePath.Context.Typed
import NodePath.Context.Write
import NodePath.Engine.Publication
import NodePath.Expr.Printer
import NodePath.Function.Stock
import NodePath.Main
import NodePath.Namespace.Handle
import NodePath.Namespace.Sharing
import NodePath.Proofs.Consultation
import NodePath.Proofs.Creation
import NodePath.Proofs.Edits
import NodePath.Proofs.Enumeration
import NodePath.Proofs.FailedCreation
import NodePath.Proofs.FirstNode
import NodePath.Proofs.Formatting
import NodePath.Proofs.FreshTraversal
import NodePath.Proofs.Grammar
import NodePath.Proofs.Independence
import NodePath.Proofs.Inheritance
import NodePath.Proofs.Kinship
import NodePath.Proofs.Leniency
import NodePath.Proofs.MadePath
import NodePath.Proofs.Mirroring
import NodePath.Proofs.NearestDeclaration
import NodePath.Proofs.NodeSet
import NodePath.Proofs.Parenthesised
import NodePath.Proofs.Parsing
import NodePath.Proofs.Presence
import NodePath.Proofs.Printing
import NodePath.Proofs.Recency
import NodePath.Proofs.Registration
import NodePath.Proofs.Removal
import NodePath.Proofs.ScopeSharing
import NodePath.Proofs.Undisturbed
import NodePath.Proofs.Unions
import NodePath.Proofs.VariableRings
import NodePath.Proofs.VariableWriting
import NodePath.Proofs.Window
import NodePath.Proofs.Abbreviation
import NodePath.Proofs.ByteGrammar
