import Thesaurus.Main
import Thesaurus.Proofs.Forest.Siblings
import Thesaurus.Proofs.Graph.Finish
import Thesaurus.Proofs.Forest.Opening
import Thesaurus.Proofs.Forest.Nodes
import Thesaurus.Proofs.Forest.Placed
import Thesaurus.Proofs.Forest.Build
import Thesaurus.Proofs.Hierarchy.Stats
import Thesaurus.Proofs.Transform
import Thesaurus.Proofs.Forest.Arrangement
import Thesaurus.Proofs.Forest.Ranking
import Thesaurus.Proofs.Forest.Shape
import Thesaurus.Proofs.Graph.Lists
import Thesaurus.Proofs.Graph.Coherent
import Thesaurus.Proofs.Forest.Growing
import Thesaurus.Proofs.Forest.Roots
import Thesaurus.Proofs.Hierarchy.Cycles
import Thesaurus.Proofs.Forest.Trails
import Thesaurus.Proofs.Forest.Schemes
import Thesaurus.Proofs.Forest.Exploration
import Thesaurus.Proofs.Forest.Promotion
import Thesaurus.Proofs.Forest.BackEdges
import Thesaurus.Proofs.Graph.Agreement
import Thesaurus.Proofs.Graph.Facts
import Thesaurus.Proofs.Forest.Distinct
import Thesaurus.Proofs.Forest.SiblingOrder
import Thesaurus.Proofs.Graph.Renaming
import Thesaurus.Proofs.Forest.Renaming
import Thesaurus.Proofs.Forest.Closing
import Thesaurus.Proofs.Forest.Unordered
import Thesaurus.Proofs.Forest.Unambiguous
import Thesaurus.Proofs.Graph.Counterparts
import Thesaurus.Proofs.Forest.Leftovers
import Thesaurus.Proofs.Forest.StatementOrder
import Thesaurus.Proofs.Graph.Texts
import Thesaurus.Proofs.Forest.Recursion
import Thesaurus.Proofs.Forest.References
import Thesaurus.Proofs.Graph.Members
import Thesaurus.Proofs.Graph.Mismatches
import Thesaurus.Proofs.Graph.Findings
import Thesaurus.Proofs.Graph.Conflicts
import Thesaurus.Proofs.Notation.Order
import Thesaurus.Proofs.Forest.RankOrder
import Thesaurus.Proofs.Forest.Inverses
import Thesaurus.Proofs.Forest.Positions
import Thesaurus.Proofs.Forest.OrderedCollections
import Thesaurus.Proofs.Forest.Plain
import Thesaurus.Proofs.Graph.Showing
import Thesaurus.Proofs.Graph.Plain
import Thesaurus.Proofs.Graph.Configured
import Thesaurus.Proofs.Forest.Configured
import Thesaurus.Proofs.Text.Markup
import Thesaurus.Proofs.Messages
import Thesaurus.Proofs.Graph.Labels
import Thesaurus.Proofs.Session
import Thesaurus.Proofs.Graph.Chains
import Thesaurus.Proofs.Forest.Gathering
import Thesaurus.Proofs.Forest.Discovery
import Thesaurus.Proofs.Forest.Ascending
import Thesaurus.Proofs.Hierarchy.Components
import Thesaurus.Proofs.Hierarchy.Depth
import Thesaurus.Proofs.Graph.Growth
import Thesaurus.Proofs.Graph.Repeats
import Thesaurus.Forest.Resolver
import Thesaurus.Proofs.Forest.Resolver
import Thesaurus.Proofs.Notation.Comparison
import Thesaurus.Proofs.Notation.Grammar
import Thesaurus.Proofs.Number.Values
import Thesaurus.Proofs.Number.Rounding
import Thesaurus.Proofs.Notation.Magnitude
import Thesaurus.Proofs.Forest.Ignored
import Thesaurus.Proofs.Text.Percent
import Thesaurus.Proofs.Json.Fields
import Thesaurus.Proofs.Forest.Encoding
import Thesaurus.Proofs.Toml.Quoted
import Thesaurus.Proofs.Toml.Document
import Thesaurus.Proofs.FileTree
import Thesaurus.Proofs.Configuration.Written
import Thesaurus.Proofs.Forest.Walk
import Thesaurus.Proofs.Graph.Requests
import Thesaurus.Proofs.CommandLine.Run
