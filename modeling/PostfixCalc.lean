import PostfixCalc.Json.Value.Lemmas
import PostfixCalc.Main
import PostfixCalc.Tree
import PostfixCalc.Window.Frame
import PostfixCalc.Proofs.Grammar
import PostfixCalc.Proofs.Literal
import PostfixCalc.Proofs.Lexing
import PostfixCalc.Proofs.Alternation
import PostfixCalc.Proofs.Conservation
import PostfixCalc.Proofs.Refusal
import PostfixCalc.Proofs.Matrices
import PostfixCalc.Proofs.Chain
import PostfixCalc.Proofs.Actions
import PostfixCalc.Proofs.Outputs
import PostfixCalc.Proofs.Shortest
import PostfixCalc.Proofs.Composition
import PostfixCalc.Proofs.GridText
import PostfixCalc.Proofs.Reentry
import PostfixCalc.Proofs.Entry
import PostfixCalc.Proofs.LowerCase
import PostfixCalc.Proofs.Registration
import PostfixCalc.Proofs.JsonToken
import PostfixCalc.Proofs.JsonText
import PostfixCalc.Proofs.RequestText
import PostfixCalc.Proofs.Ownership
import PostfixCalc.Proofs.KnownOperators
import PostfixCalc.Proofs.EnterKey
import PostfixCalc.Proofs.Balance
import PostfixCalc.Proofs.Placement
import PostfixCalc.Proofs.Keypad
import PostfixCalc.Proofs.Routes
import PostfixCalc.Proofs.ErrorPosition
import PostfixCalc.Proofs.Juxtaposition
import PostfixCalc.Proofs.ShownTokens
import PostfixCalc.Proofs.Enclosure
import PostfixCalc.Proofs.Extension
import PostfixCalc.Proofs.OperatorKey
import PostfixCalc.Proofs.StackOrder
